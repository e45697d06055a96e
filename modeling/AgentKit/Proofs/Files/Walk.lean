/-
# Following paths

Where a path leads is decided by the directories of a tree alone: a tree with more
directories follows every path that could be followed before to the same place. Files
do not matter on the way, so writing files never changes where a path leads.

`reach` follows a whole path as a directory, and `target?` finds the place of the file
that a path leads to. For an ordinary path below a root, that place lies below the
directory of the root by the moves of the path.
-/

import AgentKit.Files.Operations
import AgentKit.Proofs.Files.Path

namespace AgentKit.Files.Tree

variable {tree before after : Tree} {location result : Location} {path : Path}

/-- A part of a path leads to a directory: the same one, the one above, or one with the
name of the part. -/
theorem follow_eq_ok_iff {part : String} :
    tree.follow location part = .ok result ↔
      part = "." ∧ result = location ∨ part = ".." ∧ result = location.dropLast ∨
        part ≠ "." ∧ part ≠ ".." ∧ part.utf8ByteSize ≤ nameLimit ∧
          tree.find? (location ++ [part]) = some .directory ∧ result = location ++ [part] := by
  unfold follow lookUp
  by_cases here : part = "."
  · simp [here, eq_comm]
  by_cases upwards : part = ".."
  · simp [upwards, eq_comm]
  by_cases long : part.utf8ByteSize > nameLimit
  · simp [here, upwards, long, Nat.not_le.mpr long]
  · rcases found : tree.find? (location ++ [part]) with _ | _ | content <;>
      simp [here, upwards, long, Nat.not_lt.mp long, eq_comm]

theorem follow_name {name : String} (proper : isName name)
    (short : name.utf8ByteSize ≤ nameLimit)
    (found : tree.find? (location ++ [name]) = some .directory) :
    tree.follow location name = .ok (location ++ [name]) := by
  simp only [isName, ne_eq, Bool.and_eq_true, decide_eq_true_eq] at proper
  exact follow_eq_ok_iff.mpr
    (.inr (.inr ⟨proper.1.1.1.2, proper.1.1.2, short, found, rfl⟩))

/-- A part followed from a directory leads to a directory. -/
theorem find?_follow {part : String} (begins : tree.find? location = some .directory)
    (followed : tree.follow location part = .ok result) :
    tree.find? result = some .directory := by
  rcases follow_eq_ok_iff.mp followed with ⟨_, rfl⟩ | ⟨_, rfl⟩ | ⟨_, _, _, found, rfl⟩
  · exact begins
  · exact find?_dropLast begins
  · exact found

@[simp]
theorem walk_nil : tree.walk location [] = .ok location := rfl

theorem walk_cons (part : String) (parts : List String) :
    tree.walk location (part :: parts) = tree.follow location part >>= (tree.walk · parts) :=
  List.foldlM_cons

theorem walk_append (first second : List String) :
    tree.walk location (first ++ second) = tree.walk location first >>= (tree.walk · second) :=
  List.foldlM_append

theorem bind_eq_ok_iff {ε α β : Type} {x : Except ε α} {f : α → Except ε β} {b : β} :
    x >>= f = .ok b ↔ ∃ a, x = .ok a ∧ f a = .ok b := by
  cases x <;> simp [bind, Except.bind]

theorem bind_eq_error_iff {ε α β : Type} {x : Except ε α} {f : α → Except ε β} {e : ε} :
    x >>= f = .error e ↔ x = .error e ∨ ∃ a, x = .ok a ∧ f a = .error e := by
  cases x <;> simp [bind, Except.bind]

theorem walk_cons_eq_ok_iff {part : String} {parts : List String} :
    tree.walk location (part :: parts) = .ok result ↔
      ∃ next, tree.follow location part = .ok next ∧ tree.walk next parts = .ok result := by
  rw [walk_cons, bind_eq_ok_iff]

theorem walk_append_eq_ok_iff {first second : List String} :
    tree.walk location (first ++ second) = .ok result ↔
      ∃ middle, tree.walk location first = .ok middle ∧ tree.walk middle second = .ok result := by
  rw [walk_append, bind_eq_ok_iff]

/-- A walk from a directory ends at a directory. -/
theorem find?_walk {parts : List String} (begins : tree.find? location = some .directory)
    (walked : tree.walk location parts = .ok result) : tree.find? result = some .directory := by
  induction parts generalizing location with
  | nil =>
      obtain rfl : location = result := by simpa using walked
      exact begins
  | cons part parts ih =>
      obtain ⟨next, followed, rest⟩ := walk_cons_eq_ok_iff.mp walked
      exact ih (find?_follow begins followed) rest

/-- Single full stops lead nowhere. -/
theorem walk_filter_dot (parts : List String) :
    tree.walk location (parts.filter (· ≠ ".")) = tree.walk location parts := by
  induction parts generalizing location with
  | nil => rfl
  | cons part parts ih =>
      by_cases here : part = "."
      · have stays : tree.follow location part = .ok location :=
          follow_eq_ok_iff.mpr (.inl ⟨here, rfl⟩)
        rw [List.filter_cons_of_neg (by simp [here]), ih, walk_cons, stays]
        rfl
      · rw [List.filter_cons_of_pos (by simpa using here), walk_cons, walk_cons]
        simp only [ih]

/-- A walk that never goes upwards adds the names on its way. -/
theorem walk_of_not_up {parts : List String} (never : ".." ∉ parts)
    (walked : tree.walk location parts = .ok result) :
    result = location ++ parts.filter (· ≠ ".") := by
  induction parts generalizing location with
  | nil => simpa using Eq.symm walked
  | cons part parts ih =>
      rw [List.mem_cons, not_or] at never
      obtain ⟨next, followed, rest⟩ := walk_cons_eq_ok_iff.mp walked
      have ends := ih never.2 rest
      rcases follow_eq_ok_iff.mp followed with ⟨here, rfl⟩ | ⟨upwards, _⟩ | ⟨other, _, _, _, rfl⟩
      · rw [ends, List.filter_cons_of_neg (by simp [here])]
      · exact absurd upwards.symm never.1
      · rw [ends, List.filter_cons_of_pos (by simpa using other), List.append_assoc,
          List.singleton_append]

theorem find?_startOf (tree : Tree) (path : Path) :
    tree.find? (tree.startOf path) = some .directory := by
  unfold startOf
  split
  · rfl
  · exact tree.find?_current

/-- The directory that a path leads to, whether or not its text has a flaw. -/
def reach (tree : Tree) (path : Path) : Except Fault Location :=
  tree.walk (tree.startOf path) path.steps

theorem reach_eq_walk_moves (tree : Tree) (path : Path) :
    tree.reach path = tree.walk (tree.startOf path) path.moves := by
  rw [reach, Path.moves_eq_filter_steps, walk_filter_dot]

theorem find?_reach (reached : tree.reach path = .ok location) :
    tree.find? location = some .directory :=
  find?_walk (find?_startOf tree path) reached

theorem startOf_join (tree : Tree) (root : Path) (relative : path.isAbsolute = false) :
    tree.startOf (root.join path) = tree.startOf root := by
  rw [startOf, startOf, Path.isAbsolute_join root relative]

/-! ## Trees with the same or more directories -/

/-- All directories of a tree are directories of another one in which relative paths
begin at the same place. -/
structure KeepsDirectories (before after : Tree) : Prop where
  current : after.current = before.current
  directories : ∀ location,
    before.find? location = some .directory → after.find? location = some .directory

namespace KeepsDirectories

theorem refl (tree : Tree) : KeepsDirectories tree tree :=
  ⟨rfl, fun _ => id⟩

theorem trans {middle : Tree} (first : KeepsDirectories before middle)
    (second : KeepsDirectories middle after) : KeepsDirectories before after :=
  ⟨second.current.trans first.current,
    fun location found => second.directories location (first.directories location found)⟩

theorem follow {part : String} (keeps : KeepsDirectories before after)
    (followed : before.follow location part = .ok result) :
    after.follow location part = .ok result := by
  rcases follow_eq_ok_iff.mp followed with here | upwards | ⟨other, also, short, found, ends⟩
  · exact follow_eq_ok_iff.mpr (.inl here)
  · exact follow_eq_ok_iff.mpr (.inr (.inl upwards))
  · exact follow_eq_ok_iff.mpr
      (.inr (.inr ⟨other, also, short, keeps.directories _ found, ends⟩))

theorem walk {parts : List String} (keeps : KeepsDirectories before after)
    (walked : before.walk location parts = .ok result) :
    after.walk location parts = .ok result := by
  induction parts generalizing location with
  | nil => exact walked
  | cons part parts ih =>
      obtain ⟨next, followed, rest⟩ := walk_cons_eq_ok_iff.mp walked
      exact walk_cons_eq_ok_iff.mpr ⟨next, keeps.follow followed, ih rest⟩

theorem startOf (keeps : KeepsDirectories before after) (path : Path) :
    after.startOf path = before.startOf path := by
  rw [Tree.startOf, Tree.startOf, keeps.current]

theorem reach (keeps : KeepsDirectories before after)
    (reached : before.reach path = .ok location) : after.reach path = .ok location := by
  rw [Tree.reach, keeps.startOf]
  exact keeps.walk reached

end KeepsDirectories

/-! ## The file that a path leads to -/

/-- A path leads to a name in a directory if its text has no flaw, its last step is a
name, and the steps before it lead to the directory. -/
theorem locate_eq_name_iff {name : String} {slash : Bool} :
    tree.locate path = .ok (.name location name slash) ↔
      flaw? path = none ∧ path.steps.getLast? = some name ∧ name ≠ "." ∧ name ≠ ".." ∧
        tree.walk (tree.startOf path) path.steps.dropLast = .ok location ∧
        path.endsInSlash = slash := by
  unfold locate
  rcases flaw : flaw? path with _ | fault
  · rcases last : path.steps.getLast? with _ | final
    · simp
    · simp only [bind_eq_ok_iff, Option.some.injEq, true_and]
      constructor
      · rintro ⟨directory, walked, rest⟩
        split at rest
        · simp at rest
        · split at rest
          · simp at rest
          · next here upwards => simp_all
      · rintro ⟨rfl, here, upwards, walked, rfl⟩
        exact ⟨location, walked, by simp [here, upwards]⟩
  · simp

/-- The place of the file that a path leads to, if the directories on the way are there.
Nothing needs to be at that place. -/
def target? (tree : Tree) (path : Path) : Option Location :=
  match tree.locate path with
  | .ok (.name location name false) =>
    if name.utf8ByteSize ≤ nameLimit then some (location ++ [name]) else none
  | _ => none

theorem target?_eq_some_iff {place : Location} :
    tree.target? path = some place ↔
      ∃ location name, tree.locate path = .ok (.name location name false) ∧
        name.utf8ByteSize ≤ nameLimit ∧ place = location ++ [name] := by
  unfold target?
  split
  · next location name located =>
    rw [Option.ite_none_right_eq_some]
    constructor
    · rintro ⟨short, same⟩
      exact ⟨location, name, located, short, (Option.some.inj same).symm⟩
    · rintro ⟨directory, also, again, short, rfl⟩
      obtain ⟨rfl, rfl⟩ : location = directory ∧ name = also := by
        simpa [located] using again
      exact ⟨short, rfl⟩
  · next other =>
    simp only [reduceCtorEq, false_iff, not_exists, not_and]
    exact fun location name located => absurd located (other location name)

theorem KeepsDirectories.target? {place : Location} (keeps : KeepsDirectories before after)
    (leads : before.target? path = some place) : after.target? path = some place := by
  obtain ⟨location, name, located, short, ends⟩ := target?_eq_some_iff.mp leads
  obtain ⟨flaw, last, here, upwards, walked, slash⟩ := locate_eq_name_iff.mp located
  have again : after.walk (after.startOf path) path.steps.dropLast = .ok location := by
    rw [keeps.startOf]
    exact keeps.walk walked
  exact target?_eq_some_iff.mpr
    ⟨location, name, locate_eq_name_iff.mpr ⟨flaw, last, here, upwards, again, slash⟩, short, ends⟩

/-- The last step of a path is a name, unless it is a full stop or two. -/
theorem isName_of_getLast?_steps {name : String} (flaw : flaw? path = none)
    (last : path.steps.getLast? = some name) (here : name ≠ ".") (upwards : name ≠ "..") :
    isName name := by
  have member := List.mem_of_getLast? last
  rw [Path.steps, List.mem_filter] at member
  have slash : '/' ∉ name.toList := Path.not_slash_of_mem_parts member.1
  have zero : '\x00' ∉ name.toList := by
    intro inside
    have := (Path.of_mem_parts member.1 inside).1
    simp [flaw?, this] at flaw
  have named : name ≠ "" := by simpa using member.2
  simp [isName, here, upwards, slash, zero, named]

/-- The place that a path leads to lies in a directory, under a proper name. -/
theorem of_locate_eq_name {name : String} {slash : Bool}
    (located : tree.locate path = .ok (.name location name slash)) :
    tree.find? location = some .directory ∧ isName name := by
  obtain ⟨flaw, last, here, upwards, walked, _⟩ := locate_eq_name_iff.mp located
  exact ⟨find?_walk (find?_startOf tree path) walked,
    isName_of_getLast?_steps flaw last here upwards⟩

/-- Something can be put where a path leads, unless a directory would have to make way
for a file. -/
theorem admits_of_locate {name : String} {slash : Bool}
    (located : tree.locate path = .ok (.name location name slash)) {entry : Entry}
    (kept : tree.find? (location ++ [name]) = some .directory → entry = .directory) :
    tree.Admits (location ++ [name]) entry := by
  obtain ⟨found, proper⟩ := of_locate_eq_name located
  refine ⟨by simp, ?_, by simpa using found, kept⟩
  intro part member
  rcases List.mem_append.mp member with inside | last
  · exact isName_of_find? found part inside
  · rwa [List.mem_singleton.mp last]

theorem admits_of_target? {place : Location} (leads : tree.target? path = some place)
    (free : tree.find? place ≠ some .directory) (content : Content) :
    tree.Admits place (.file content) := by
  obtain ⟨location, name, located, _, rfl⟩ := target?_eq_some_iff.mp leads
  exact admits_of_locate located fun found => absurd found free

/-- An ordinary path below a root leads to the place that its moves name, seen from the
directory of the root. -/
theorem of_target?_join {root : Path} {place : Location} (ordinary : path.IsOrdinary)
    (leads : tree.target? (root.join path) = some place) :
    ∃ base, tree.reach root = .ok base ∧ place = base ++ path.moves := by
  obtain ⟨location, name, located, _, rfl⟩ := target?_eq_some_iff.mp leads
  obtain ⟨flaw, last, here, _, walked, slash⟩ := locate_eq_name_iff.mp located
  have relative := ordinary.isAbsolute
  have moving : path.steps ≠ [] := by
    intro nowhere
    obtain rfl : path = "" := by
      by_contra named
      rw [Path.isAbsolute_of_steps_eq_nil nowhere named] at relative
      contradiction
    -- Without a path below it, a root that is not empty comes to end in a slash.
    rw [Path.join, if_neg (by simp)] at slash flaw
    by_cases unnamed : root = ""
    · simp [unnamed, flaw?] at flaw
    · by_cases trailing : root.endsInSlash
      · simp [trailing] at slash
      · rw [if_neg (by simp [unnamed, trailing])] at slash
        simp [Path.endsInSlash] at slash
  have whole : path.steps = path.steps.dropLast ++ [name] := by
    rw [Path.steps_join root relative, List.getLast?_append_of_ne_nil _ moving] at last
    exact (List.dropLast_append_getLast? name last).symm
  rw [startOf_join tree root relative, Path.steps_join root relative,
    List.dropLast_append_of_ne_nil moving, walk_append_eq_ok_iff] at walked
  obtain ⟨base, reached, rest⟩ := walked
  refine ⟨base, reached, ?_⟩
  have never : ".." ∉ path.steps.dropLast := by
    intro upwards
    have member : ".." ∈ path.steps := List.dropLast_subset _ upwards
    refine ordinary.not_up ?_
    rw [Path.moves_eq_filter_steps]
    exact List.mem_filter.mpr ⟨member, by decide⟩
  rw [walk_of_not_up never rest, Path.moves_eq_filter_steps, List.append_assoc]
  conv_rhs => rw [whole]
  rw [List.filter_append, List.filter_cons_of_pos (by simpa using here), List.filter_nil]

end AgentKit.Files.Tree
