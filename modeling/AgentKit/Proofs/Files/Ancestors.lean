/-
# The paths above a path

The paths above a path make the first of its moves and begin at the same place. Above
an absolute path every path makes one move less than the one before it, so no place is
met twice; above a relative path the last one may be empty. Above the absolute path of a
place are the paths of the places on the way to it.
-/

import AgentKit.Proofs.Files.Walk
import Mathlib.Data.List.Infix

namespace AgentKit.Path

variable {path above : Path}

theorem of_mem_ancestorsWithin {limit : Nat} (member : above ∈ ancestorsWithin limit path) :
    above.moves <+: path.moves ∧ above.isAbsolute = path.isAbsolute := by
  induction limit generalizing path with
  | zero =>
      obtain rfl := List.mem_singleton.mp member
      exact ⟨List.prefix_rfl, rfl⟩
  | succ limit ih =>
      rw [ancestorsWithin] at member
      cases parent : path.parent? with
      | none =>
          rw [parent] at member
          obtain rfl := List.mem_singleton.mp member
          exact ⟨List.prefix_rfl, rfl⟩
      | some next =>
          rw [parent] at member
          rcases List.mem_cons.mp member with rfl | further
          · exact ⟨List.prefix_rfl, rfl⟩
          · obtain ⟨moves, absolute, _⟩ := of_parent?_eq_some parent
            obtain ⟨begins, same⟩ := ih further
            rw [moves] at begins
            exact ⟨begins.trans (List.dropLast_prefix _), same.trans absolute⟩

/-- A path above another one makes the first of its moves and begins where it begins. -/
theorem of_mem_ancestors (member : above ∈ path.ancestors) :
    above.moves <+: path.moves ∧ above.isAbsolute = path.isAbsolute :=
  of_mem_ancestorsWithin member

/-- The path above a path with moves is a shorter text. -/
theorem length_lt_of_parent? (moving : path.moves ≠ []) (parent : path.parent? = some above) :
    above.length < path.length := by
  obtain ⟨moves, _, begins⟩ := of_parent?_eq_some parent
  rw [← String.length_toList, ← String.length_toList]
  refine lt_of_le_of_ne begins.length_le fun same => ?_
  rw [String.toList_inj.mp (begins.eq_of_length same)] at moves
  have fewer := congrArg List.length moves
  have some_move := List.length_pos_of_ne_nil moving
  rw [List.length_dropLast] at fewer
  omega

/-- A path does not end in a full stop behind its last move. -/
def IsTrimmed (path : Path) : Prop :=
  path.moves ≠ [] → path.steps.getLast? ≠ some "."

/-- The path above a path is trimmed. -/
theorem isTrimmed_of_parent? (parent : path.parent? = some above) : above.IsTrimmed := by
  intro moving
  have origin : path.moves ≠ [] := by
    intro nowhere
    rw [(of_parent?_eq_some parent).1, nowhere] at moving
    exact moving rfl
  obtain rfl := Option.some.inj ((parent?_of_moves origin).symm.trans parent)
  have whole : ∀ part ∈ path.bodyAbove, '/' ∉ part.toList := fun part member =>
    not_slash_of_mem_parts (path.body_sublist.subset (path.bodyAbove_isPrefix.subset member))
  have some_part : path.bodyAbove ≠ [] := by
    intro none
    rw [moves_ofBody path.start_cases whole, none] at moving
    exact moving rfl
  obtain ⟨lead, _, parts⟩ := parts_ofBody path.start_cases some_part whole
  have counts : ¬ isIdle (path.bodyAbove.getLast some_part) :=
    List.rdropWhile_last_not isIdle _ some_part
  have filled : (!(path.bodyAbove.getLast some_part).isEmpty) = true := by
    rw [Bool.not_eq_true', String.isEmpty_eq_false_iff]
    intro empty
    exact counts (by rw [empty]; rfl)
  rw [steps, parts, ← List.dropLast_append_getLast some_part, ← List.append_assoc,
    List.filter_append, List.filter_cons_of_pos (by simpa using filled), List.filter_nil,
    List.getLast?_concat]
  intro dot
  exact counts (by rw [Option.some.inj dot]; rfl)

/-- Where the last step of a path is a move, the steps before it make the moves before
it. -/
theorem filter_dropLast_steps (ends : path.steps.getLast? ≠ some ".") :
    path.steps.dropLast.filter (· ≠ ".") = path.moves.dropLast := by
  rw [moves_eq_filter_steps]
  cases last : path.steps.getLast? with
  | none => simp [List.getLast?_eq_none_iff.mp last]
  | some final =>
      have other : final ≠ "." := fun dot => ends (dot ▸ last)
      conv_rhs => rw [← List.dropLast_append_getLast? final last]
      rw [List.filter_append, List.filter_cons_of_pos (by simpa using other), List.filter_nil,
        List.dropLast_concat]

/-- There is no path above the top. -/
theorem moves_ne_nil_of_parent? (absolute : path.isAbsolute)
    (parent : path.parent? = some above) : path.moves ≠ [] := by
  intro nowhere
  rw [parent?, dropIdle_body_of_moves_eq_nil nowhere, start, if_pos absolute] at parent
  simp at parent

/-- Of two paths above an absolute path the nearer one makes more moves. -/
theorem pairwise_ancestors (absolute : path.isAbsolute) :
    path.ancestors.Pairwise fun near far =>
      ∃ way, way ≠ [] ∧ near.moves = far.moves ++ way := by
  rw [ancestors]
  generalize path.length = limit
  induction limit generalizing path with
  | zero => exact List.pairwise_singleton _ _
  | succ limit ih =>
      rw [ancestorsWithin]
      cases parent : path.parent? with
      | none => exact List.pairwise_singleton _ _
      | some next =>
          obtain ⟨moves, same, _⟩ := of_parent?_eq_some parent
          refine List.pairwise_cons.mpr ⟨fun far further => ?_, ih (same.trans absolute)⟩
          obtain ⟨way, whole⟩ := (of_mem_ancestorsWithin further).1
          have moving := moves_ne_nil_of_parent? absolute parent
          refine ⟨way ++ [path.moves.getLast moving], by simp, ?_⟩
          rw [← List.append_assoc, whole, moves, List.dropLast_append_getLast moving]

/-! ## The path of a place -/

open Files (Location isName)

variable {place other : Location} {name : String}

/-- The absolute path of a place. -/
def ofPlace (place : Location) : Path :=
  ofBody "/" place

theorem isAbsolute_ofPlace (place : Location) : (ofPlace place).isAbsolute := by
  rw [ofPlace, ofBody, if_neg (by simp), isAbsolute]
  simp

/-- A name counts in a path and is a single part of it. -/
theorem of_isName (proper : isName name) : ¬ isIdle name ∧ '/' ∉ name.toList := by
  simp only [isName, ne_eq, Bool.and_eq_true, decide_eq_true_eq, Bool.not_eq_true',
    List.contains_eq_mem, decide_eq_false_iff_not] at proper
  exact ⟨by simp [isIdle, proper.1.1.1.1, proper.1.1.1.2], proper.1.2⟩

/-- The path of a place makes the moves that lead there. -/
theorem moves_ofPlace (named : ∀ name ∈ place, isName name) : (ofPlace place).moves = place := by
  rw [ofPlace, moves_ofBody (.inl rfl) fun name member => (of_isName (named name member)).2,
    List.filter_eq_self]
  intro name member
  simpa using (of_isName (named name member)).1

/-- Different places have different paths. -/
theorem ofPlace_inj (named : ∀ name ∈ place, isName name)
    (named' : ∀ name ∈ other, isName name) (same : ofPlace place = ofPlace other) :
    place = other := by
  rw [← moves_ofPlace named, same, moves_ofPlace named']

theorem dropIdle_eq_self (named : ∀ name ∈ place, isName name) : dropIdle place = place := by
  have counts : place.rdropWhile isIdle = place := by
    rw [List.rdropWhile_eq_self_iff]
    intro filled
    exact (of_isName (named _ (List.getLast_mem filled))).1
  exact counts

/-- Above the path of a place is the path of the place above. -/
theorem parent?_ofPlace (named : ∀ part ∈ place ++ [name], isName part) :
    (ofPlace (place ++ [name])).parent? = some (ofPlace place) := by
  have absolute := isAbsolute_ofPlace (place ++ [name])
  have parts : (ofPlace (place ++ [name])).parts = "" :: (place ++ [name]) := by
    have inner := parts_intercalate (List.append_ne_nil_of_right_ne_nil place (by simp))
      fun part member => (of_isName (named part member)).2
    have whole : ofPlace (place ++ [name]) =
        "" ++ "/" ++ "/".intercalate (place ++ [name]) := by
      rw [ofPlace, ofBody, if_neg (by simp), String.empty_append]
    rw [whole, parts_append_slash, inner]
    rfl
  have body : (ofPlace (place ++ [name])).body = place ++ [name] := by
    rw [Path.body, absolute, Bool.true_or, if_pos rfl, parts, List.tail_cons]
  have above : (ofPlace (place ++ [name])).bodyAbove = place := by
    rw [bodyAbove, body, dropIdle_eq_self named, List.dropLast_concat, dropIdle_eq_self]
    exact fun part member => named part (List.mem_append_left _ member)
  have start : (ofPlace (place ++ [name])).start = "/" := by rw [Path.start, if_pos absolute]
  have moving : (ofPlace (place ++ [name])).moves ≠ [] := by
    rw [moves_ofPlace named]
    simp
  rw [parent?_of_moves moving, start, above]
  rfl

/-- Above the path of a place are the paths of the places on the way to it. -/
theorem ancestors_ofPlace (named : ∀ part ∈ place, isName part) :
    (ofPlace place).ancestors = place.inits.reverse.map ofPlace := by
  have within (limit : Nat) (enough : (ofPlace place).length ≤ limit) :
      ancestorsWithin limit (ofPlace place) = place.inits.reverse.map ofPlace := by
    -- Every path above is shorter, so the limit is not reached.
    induction place using List.reverseRecOn generalizing limit with
    | nil => cases limit <;> rfl
    | append_singleton place name ih =>
        have parent := parent?_ofPlace named
        have moving : (ofPlace (place ++ [name])).moves ≠ [] := by
          rw [moves_ofPlace named]
          simp
        have shorter := length_lt_of_parent? moving parent
        cases limit with
        | zero => omega
        | succ limit =>
            rw [ancestorsWithin, parent]
            simp only
            rw [ih (fun part member => named part (List.mem_append_left _ member)) limit (by omega),
              List.inits_append]
            simp
  exact within _ le_rfl

/-- Above the path of a place that lies below another one are first the paths of places further
down, and then the paths above that of the other place. -/
theorem exists_ancestors_append {way : Location} (named : ∀ part ∈ place ++ way, isName part) :
    ∃ nearer, (ofPlace (place ++ way)).ancestors = nearer ++ (ofPlace place).ancestors ∧
      ∀ path ∈ nearer, ∃ more, more ≠ [] ∧ more <+: way ∧ path = ofPlace (place ++ more) := by
  refine ⟨((way.inits.tail.map (place ++ ·)).reverse).map ofPlace, ?_, ?_⟩
  · rw [ancestors_ofPlace named, List.inits_append, List.reverse_append, List.map_append,
      ancestors_ofPlace fun part member => named part (List.mem_append_left _ member)]
  · intro path member
    simp only [List.mem_map, List.mem_reverse, exists_exists_and_eq_and] at member
    obtain ⟨more, inside, rfl⟩ := member
    have begins := (List.mem_inits more way).mp (List.mem_of_mem_tail inside)
    refine ⟨more, ?_, begins, rfl⟩
    rintro rfl
    cases way <;> simp at inside

end AgentKit.Path

namespace AgentKit.Files.Tree

/-- The working directory as a path is the path of its place. -/
theorem workingPath_eq_ofPlace (tree : Tree) : tree.workingPath = Path.ofPlace tree.current := by
  rw [workingPath, Path.ofPlace, Path.ofBody, if_neg (by simp)]

/-- The working directory as a path begins at the top and makes the moves of its place. -/
theorem workingPath_spec (tree : Tree) :
    tree.workingPath.isAbsolute ∧ tree.workingPath.moves = tree.current := by
  rw [workingPath_eq_ofPlace]
  exact ⟨Path.isAbsolute_ofPlace _, Path.moves_ofPlace (isName_of_find? tree.find?_current)⟩

end AgentKit.Files.Tree
