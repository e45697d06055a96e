/-
# Trees within trees

A tree lies within another one if the other has everything that it has: a directory where
it has a directory, and some file where it has a file. Making directories and writing
files lead from a tree to one within which it lies.

A tree within a bound meets only one obstacle on its way to a directory of the bound, a
directory that is missing. So all directories of the bound can be made in it, one after
the other in any order, and the tree stays within the bound.
-/

import AgentKit.Proofs.Files.Ancestors
import AgentKit.Proofs.Files.Below

namespace AgentKit.Files.Tree

variable {tree bound before middle after : Tree} {location result place : Location}
  {path above root : Path} {part : String} {parts : List String}

/-- Everything in a tree is in another one, files as files with whatever content, and
relative paths begin at the same place. -/
structure Within (tree bound : Tree) : Prop extends KeepsDirectories tree bound where
  files : ∀ location content, tree.find? location = some (.file content) →
    ∃ other, bound.find? location = some (.file other)

/-! ## Changes that lead to a tree around -/

theorem Within.refl (tree : Tree) : Within tree tree where
  toKeepsDirectories := .refl tree
  files _ content found := ⟨content, found⟩

theorem Within.trans (first : Within before middle) (second : Within middle after) :
    Within before after where
  toKeepsDirectories := first.toKeepsDirectories.trans second.toKeepsDirectories
  files location content found := by
    obtain ⟨other, found⟩ := first.files location content found
    exact second.files location other found

/-- What is missing in the tree around is missing. -/
theorem Within.find?_eq_none (within : Within tree bound) (absent : bound.find? location = none) :
    tree.find? location = none := by
  rcases found : tree.find? location with _ | _ | content
  · rfl
  · simp [within.directories location found] at absent
  · obtain ⟨other, file⟩ := within.files location content found
    simp [file] at absent

/-- What is at a name below a path stays there, as a file or as a directory. -/
theorem Within.isThere_join {name : String} (within : Within before after) (named : isName name)
    (there : before.isThere (root.join name)) : after.isThere (root.join name) := by
  obtain ⟨entry, found⟩ := isThere_iff.mp there
  obtain ⟨flaw, short, location, reached, found⟩ := (entryAt_join_eq_ok_iff named).mp found
  rcases still : after.find? (location ++ [name]) with _ | other
  · rw [within.find?_eq_none still] at found
    contradiction
  · exact isThere_iff.mpr ⟨other, (entryAt_join_eq_ok_iff named).mpr
      ⟨flaw, short, location, within.reach reached, still⟩⟩

theorem Grown.within (grown : Grown before after) : Within before after where
  toKeepsDirectories := grown.keepsDirectories
  files _ content found := ⟨content, grown.find?_of_some found⟩

theorem Written.within {content : Content} (written : Written before after place content) :
    Within before after where
  toKeepsDirectories := written.keepsDirectories
  files location old found := by
    by_cases here : location = place
    · exact ⟨content, by rw [written.found, if_pos here]⟩
    · exact ⟨old, by rw [written.found, if_neg here, found]⟩

/-! ## Following paths of the bound -/

/-- A step that leads on in the bound leads on in the tree, unless the directory is
missing. -/
theorem Within.follow_cases (within : Within tree bound)
    (followed : bound.follow location part = .ok result) :
    tree.follow location part = .ok result ∨
      part ≠ "." ∧ part ≠ ".." ∧ part.utf8ByteSize ≤ nameLimit ∧
        tree.find? (location ++ [part]) = none ∧ result = location ++ [part] := by
  rcases follow_eq_ok_iff.mp followed with here | upwards | ⟨other, also, short, there, ends⟩
  · exact .inl (follow_eq_ok_iff.mpr (.inl here))
  · exact .inl (follow_eq_ok_iff.mpr (.inr (.inl upwards)))
  · rcases found : tree.find? (location ++ [part]) with _ | _ | content
    · exact .inr ⟨other, also, short, rfl, ends⟩
    · exact .inl (follow_eq_ok_iff.mpr (.inr (.inr ⟨other, also, short, found, ends⟩)))
    · obtain ⟨other, file⟩ := within.files _ _ found
      simp [there] at file

/-- The only fault on a way that the bound has is that something is missing. -/
theorem Within.walk_cases (within : Within tree bound)
    (walked : bound.walk location parts = .ok result) :
    tree.walk location parts = .ok result ∨ tree.walk location parts = .error .notFound := by
  induction parts generalizing location with
  | nil => exact .inl walked
  | cons part parts ih =>
      obtain ⟨next, followed, rest⟩ := walk_cons_eq_ok_iff.mp walked
      rcases within.follow_cases followed with same | ⟨other, also, short, absent, _⟩
      · rw [walk_cons, same]
        exact ih rest
      · right
        have missing : tree.follow location part = .error .notFound := by
          simp [follow, lookUp, other, also, Nat.not_lt.mpr short, absent]
        rw [walk_cons, missing]
        rfl

/-- A path that can be followed can be followed up to its last step. -/
theorem walk_dropLast_of_reach (reached : tree.reach path = .ok location) :
    ∃ middle, tree.walk (tree.startOf path) path.steps.dropLast = .ok middle := by
  cases last : path.steps.getLast? with
  | none => exact ⟨_, by rw [List.getLast?_eq_none_iff.mp last]; rfl⟩
  | some final =>
      obtain ⟨middle, walked, _⟩ := (reach_eq_ok_iff last).mp reached
      exact ⟨middle, walked⟩

/-- A path that ends in a move is followed up to its last step as the path above it. -/
theorem walk_dropLast_of_parent? (parent : path.parent? = some above)
    (ends : path.steps.getLast? ≠ some ".") (reached : tree.reach above = .ok location) :
    tree.walk (tree.startOf path) path.steps.dropLast = .ok location := by
  obtain ⟨moves, absolute, _⟩ := Path.of_parent?_eq_some parent
  rw [← walk_filter_dot, Path.filter_dropLast_steps ends, ← moves]
  rwa [reach_eq_walk_moves, startOf, absolute] at reached

theorem reach_of_isPresent (present : tree.IsPresent path) :
    ∃ location, tree.reach path = .ok location := by
  rcases present with rfl | there
  · exact ⟨tree.current, rfl⟩
  · exact (isDirectory_iff.mp there).2

/-- The path above a directory is present. -/
theorem isPresent_of_parent? (there : tree.isDirectory path) (parent : path.parent? = some above) :
    tree.IsPresent above := by
  obtain ⟨moves, absolute, begins⟩ := Path.of_parent?_eq_some parent
  by_cases named : above = ""
  · exact .inl named
  · obtain ⟨flaw, location, reached⟩ := isDirectory_iff.mp there
    obtain ⟨rest, whole⟩ := begins
    have text : above ++ String.ofList rest = path :=
      String.toList_inj.mp (by rw [String.toList_append, String.toList_ofList, whole])
    obtain ⟨more, order⟩ := List.dropLast_prefix path.moves
    rw [reach_eq_walk_moves, ← order, walk_append_eq_ok_iff, ← moves, startOf, ← absolute,
      ← startOf, ← reach_eq_walk_moves] at reached
    obtain ⟨middle, led, _⟩ := reached
    exact .inr (isDirectory_iff.mpr ⟨flaw?_of_append named (text ▸ flaw), middle, led⟩)

/-- A path whose last step is no full stop makes a move. -/
theorem moves_ne_nil_of_getLast? (last : path.steps.getLast? = some part) (here : part ≠ ".") :
    path.moves ≠ [] := by
  rw [Path.moves_eq_filter_steps]
  exact List.ne_nil_of_mem (List.mem_filter.mpr ⟨List.mem_of_getLast? last, by simpa using here⟩)

/-- A path that leads to the place of a file makes a move. -/
theorem moves_ne_nil_of_target? (leads : tree.target? path = some place) : path.moves ≠ [] := by
  obtain ⟨directory, name, located, _⟩ := target?_eq_some_iff.mp leads
  obtain ⟨_, last, here, _⟩ := locate_eq_name_iff.mp located
  exact moves_ne_nil_of_getLast? last here

/-- A path leads to the place of the bound where the directory above it is there. -/
theorem target?_of_parent? (keeps : KeepsDirectories tree bound)
    (leads : bound.target? path = some place) (parent : path.parent? = some above)
    (reached : tree.reach above = .ok location) : tree.target? path = some place := by
  obtain ⟨directory, name, located, short, ends⟩ := target?_eq_some_iff.mp leads
  obtain ⟨flaw, last, here, upwards, walked, slash⟩ := locate_eq_name_iff.mp located
  have led := walk_dropLast_of_parent? parent (by simpa [last] using here) reached
  have again := keeps.walk led
  rw [← keeps.startOf, walked] at again
  obtain rfl := Except.ok.inj again
  exact target?_eq_some_iff.mpr
    ⟨directory, name, locate_eq_name_iff.mpr ⟨flaw, last, here, upwards, led, slash⟩, short, ends⟩

/-! ## Making directories of the bound -/

theorem Within.put_directory (within : Within tree bound)
    (admits : tree.Admits location .directory) (there : bound.find? location = some .directory) :
    Within (tree.put location .directory) bound where
  current := by rw [within.current, current_put]
  directories place found := by
    rw [find?_put admits] at found
    split at found
    · next here => rw [here, there]
    · exact within.directories place found
  files place content found := by
    rw [find?_put admits] at found
    split at found
    · simp at found
    · exact within.files place content found

/-- A directory of the bound is settled at once where the way up to it is there. -/
theorem Within.settleDirectory (within : Within tree bound) (there : bound.isDirectory path)
    (walked : tree.walk (tree.startOf path) path.steps.dropLast = .ok location) :
    (tree.makeDirectory path).2 ≠ .error .notFound ∧
      ∃ next, Tree.settleDirectory path (tree.makeDirectory path) = (next, .ok ()) ∧
        Within next bound := by
  have of_reach {place : Location} (reached : tree.reach path = .ok place) :
      (tree.makeDirectory path).2 ≠ .error .notFound ∧
        ∃ next, Tree.settleDirectory path (tree.makeDirectory path) = (next, .ok ()) ∧
          Within next bound := by
    have here := isDirectory_iff.mpr ⟨(isDirectory_iff.mp there).1, place, reached⟩
    rw [makeDirectory_of_isDirectory here]
    exact ⟨by simp, tree, by simp [Tree.settleDirectory, here], within⟩
  obtain ⟨flaw, place, reached⟩ := isDirectory_iff.mp there
  cases last : path.steps.getLast? with
  | none =>
      have nowhere : path.steps = [] := List.getLast?_eq_none_iff.mp last
      exact of_reach (by rw [reach, nowhere, walk_nil])
  | some final =>
      obtain ⟨middle, passed, followed⟩ := (reach_eq_ok_iff last).mp reached
      have again := within.walk walked
      rw [← within.startOf, passed] at again
      obtain rfl := Except.ok.inj again
      rcases within.follow_cases followed with same | ⟨other, also, short, absent, rfl⟩
      · exact of_reach ((reach_eq_ok_iff last).mpr ⟨middle, walked, same⟩)
      · have located := locate_eq_name_iff.mpr ⟨flaw, last, other, also, walked, rfl⟩
        have made :
            tree.makeDirectory path = (tree.put (middle ++ [final]) .directory, .ok ()) := by
          simp [makeDirectory, located, lookUp, Nat.not_lt.mpr short, absent]
        rw [made]
        exact ⟨by simp, _, rfl, within.put_directory (admits_of_locate located fun _ => rfl)
          (find?_reach reached)⟩

/-- Where the way up to a directory ends early, the directory cannot be made. -/
theorem makeDirectory_of_walk_eq_error {fault : Fault} (flaw : flaw? path = none)
    (failed : tree.walk (tree.startOf path) path.steps.dropLast = .error fault) :
    tree.makeDirectory path = (tree, .error fault) := by
  cases last : path.steps.getLast? with
  | none =>
      rw [List.getLast?_eq_none_iff.mp last] at failed
      contradiction
  | some final => simp [makeDirectory, locate, flaw, last, failed, bind, Except.bind]

/-- A path without moves can be followed up to its last step. -/
theorem moves_ne_nil_of_walk_eq_error {fault : Fault}
    (failed : tree.walk (tree.startOf path) path.steps.dropLast = .error fault) :
    path.moves ≠ [] := by
  intro nowhere
  rw [Path.moves_eq_filter_steps, List.filter_eq_nil_iff] at nowhere
  have none : path.steps.dropLast.filter (· ≠ ".") = [] :=
    List.filter_eq_nil_iff.mpr fun part member => nowhere part (List.dropLast_subset _ member)
  rw [← walk_filter_dot, none] at failed
  contradiction

/-- The directory that the empty path means is always there. -/
theorem makeMissing_unnamed (tree : Tree) (limit : Nat) :
    tree.makeMissing (Path.ancestorsWithin limit "") = (tree, .ok ()) := by
  obtain ⟨others, whole⟩ := List.head?_eq_some_iff.mp (head?_ancestorsWithin limit "")
  rw [whole, makeMissing, if_pos (by decide)]

theorem Within.makeMissing {limit : Nat} (within : Within tree bound)
    (present : bound.IsPresent path) (trimmed : path.IsTrimmed) (enough : path.length ≤ limit) :
    ∃ next, tree.makeMissing (Path.ancestorsWithin limit path) = (next, .ok ()) ∧
      Within next bound := by
  induction limit generalizing path with
  | zero =>
      obtain rfl : path = "" := String.length_eq_zero_iff.mp (Nat.le_zero.mp enough)
      exact ⟨tree, makeMissing_unnamed tree 0, within⟩
  | succ limit ih =>
      by_cases unnamed : path = ""
      · exact ⟨tree, by rw [unnamed, makeMissing_unnamed], within⟩
      have there := present.resolve_left unnamed
      obtain ⟨flaw, place, reached⟩ := isDirectory_iff.mp there
      obtain ⟨middle, passed⟩ := walk_dropLast_of_reach reached
      rw [within.startOf] at passed
      rcases within.walk_cases passed with walked | failed
      · obtain ⟨settled, next, made, inside⟩ := within.settleDirectory there walked
        obtain ⟨others, whole⟩ :=
          List.head?_eq_some_iff.mp (head?_ancestorsWithin (limit + 1) path)
        exact ⟨next, by rw [whole, makeMissing_of_settled unnamed settled, made], inside⟩
      · -- The directories above are made first, and then the way is there.
        have missing := congrArg Prod.snd (makeDirectory_of_walk_eq_error flaw failed)
        have moving := moves_ne_nil_of_walk_eq_error failed
        obtain ⟨above, parent⟩ : ∃ above, path.parent? = some above :=
          ⟨_, Path.parent?_of_moves moving⟩
        have shorter := Path.length_lt_of_parent? moving parent
        obtain ⟨next, made, inside⟩ := ih (isPresent_of_parent? there parent)
          (Path.isTrimmed_of_parent? parent) (by omega)
        have standing := (makeMissing_spec (Path.ancestorsWithin limit above) tree).2
        rw [made] at standing
        obtain ⟨location, led⟩ :=
          reach_of_isPresent (standing rfl above (head?_ancestorsWithin limit above))
        obtain ⟨_, last, settled, inside⟩ := inside.settleDirectory there
          (walk_dropLast_of_parent? parent (trimmed moving) led)
        refine ⟨last, ?_, inside⟩
        have whole : Path.ancestorsWithin (limit + 1) path =
            path :: Path.ancestorsWithin limit above := by
          rw [Path.ancestorsWithin, parent]
        rw [whole]
        rcases makeMissing_of_missing unnamed missing (Path.ancestorsWithin limit above) with
          ⟨fault, failed, _⟩ | ⟨_, step⟩
        · rw [made] at failed
          contradiction
        · rw [step, made, settled]

/-- A directory of the bound can be made, and the tree stays within the bound. -/
theorem Within.makeDirectories (within : Within tree bound) (present : bound.IsPresent path)
    (trimmed : path.IsTrimmed) :
    ∃ next, tree.makeDirectories path = (next, .ok ()) ∧ Within next bound :=
  within.makeMissing present trimmed le_rfl

end AgentKit.Files.Tree
