/-
# Writing where there is room

A file can be written into a directory that may still have to be made, if the directory that
is to hold both is there and nothing is in the way: no file where the new directory comes to
lie, and no directory where the file does.

Below a steady root nothing is new in a directory that was made: new directories lie on the
way to it.
-/

import AgentKit.Proofs.Files.Ancestors
import AgentKit.Proofs.Files.Below

namespace AgentKit.Files.Tree

variable {tree : Tree} {location : Location} {path root : Path} {name : String}
  {before : List String}

/-- The last step of a trimmed path is its last move. -/
theorem getLast?_steps (trimmed : path.IsTrimmed) (moves : path.moves = before ++ [name]) :
    path.steps.getLast? = some name := by
  have ends := trimmed (by simp [moves])
  rw [Path.moves_eq_filter_steps] at moves
  rcases List.eq_nil_or_concat path.steps with none | ⟨others, last, shape⟩
  · simp [none] at moves
  · rw [List.concat_eq_append] at shape
    have other : last ≠ "." := fun dot => ends (by rw [shape, List.getLast?_concat, dot])
    rw [shape, List.filter_append, List.filter_cons_of_pos (by simpa using other), List.filter_nil]
      at moves
    rw [shape, List.getLast?_concat, (List.append_inj' moves rfl).2 |> List.singleton_inj.mp]

/-- A trimmed path leads to its last move in the directory that the moves before it lead
to. -/
theorem locate_of_moves (flaw : flaw? path = none) (trimmed : path.IsTrimmed)
    (moves : path.moves = before ++ [name]) (upwards : name ≠ "..")
    (walked : tree.walk (tree.startOf path) before = .ok location) :
    tree.locate path = .ok (.name location name path.endsInSlash) := by
  have last := getLast?_steps trimmed moves
  have here : name ≠ "." := @Path.ne_dot_of_mem_moves path name (by simp [moves])
  have led : tree.walk (tree.startOf path) path.steps.dropLast = .ok location := by
    rw [← walk_filter_dot, Path.filter_dropLast_steps (by simpa [last] using here), moves,
      List.dropLast_concat, walked]
  exact locate_eq_name_iff.mpr ⟨flaw, last, here, upwards, led, rfl⟩

/-- A directory is made where its place is free, or is there already. -/
theorem makeDirectories_of_room (flaw : flaw? path = none) (trimmed : path.IsTrimmed)
    (moves : path.moves = before ++ [name]) (named : isName name)
    (short : name.utf8ByteSize ≤ nameLimit)
    (walked : tree.walk (tree.startOf path) before = .ok location)
    (free : ∀ content, tree.find? (location ++ [name]) ≠ some (.file content)) :
    ∃ ready, tree.makeDirectories path = (ready, .ok ()) ∧ KeepsDirectories tree ready ∧
      ready.find? (location ++ [name]) = some .directory ∧
      ∀ place, place ≠ location ++ [name] → ready.find? place = tree.find? place := by
  obtain ⟨-, -, upwards, -, -⟩ := isName_iff.mp named
  have located := locate_of_moves flaw trimmed moves upwards walked
  rcases found : tree.find? (location ++ [name]) with _ | _ | content
  · have found_put := find?_put (admits_of_locate located fun _ => rfl : tree.Admits _ .directory)
    have made : tree.makeDirectory path = (tree.put (location ++ [name]) .directory, .ok ()) := by
      simp [makeDirectory, located, lookUp, Nat.not_lt.mpr short, found]
    have all : tree.makeDirectories path = (tree.put (location ++ [name]) .directory, .ok ()) := by
      have filled : path ≠ "" := by
        rintro rfl
        simp [flaw?] at flaw
      obtain ⟨others, ancestors⟩ := List.head?_eq_some_iff.mp (head?_ancestors path)
      rw [makeDirectories, ancestors, makeMissing_of_settled filled (by simp [made]), made]
      rfl
    have keeps := (makeDirectories_spec tree path).1.keepsDirectories
    rw [all] at keeps
    exact ⟨_, all, keeps, by rw [found_put, if_pos rfl],
      fun place elsewhere => by rw [found_put, if_neg elsewhere]⟩
  · have reached : tree.reach path = .ok (location ++ [name]) := by
      rw [reach_eq_walk_moves, moves, walk_append, walked]
      exact walk_cons_eq_ok_iff.mpr ⟨_, follow_name named short found, rfl⟩
    have there : tree.isDirectory path := isDirectory_iff.mpr ⟨flaw, _, reached⟩
    exact ⟨tree, makeDirectories_of_isPresent (.inr there), .refl tree, found, fun _ _ => rfl⟩
  · exact absurd found (free content)

/-- Below a steady root, the directories that are made with a directory lie on the way to it,
and nothing is new in it. -/
theorem Steady.find?_of_grownAlong {after : Tree} (steady : tree.Steady root)
    (ordinary : path.IsOrdinary) (grown : GrownAlong (root.join path).ancestors tree after)
    (led : after.reach (root.join path) = .ok location) (name : String) :
    after.find? (location ++ [name]) = tree.find? (location ++ [name]) := by
  rcases grown.found (location ++ [name]) with kept | ⟨absent, new⟩
  · exact kept
  · exfalso
    obtain ⟨base, reached, _, rfl⟩ := (reach_join_eq_ok_iff ordinary).mp led
    obtain ⟨above, way, passed⟩ := grown.along _ absent new
    obtain ⟨begins, same⟩ := Path.of_mem_ancestors way
    rw [Path.moves_join root ordinary.isAbsolute] at begins
    rw [Path.isAbsolute_join root ordinary.isAbsolute] at same
    have short := steady.isPrefix_of_new grown.keepsDirectories reached ordinary.not_up same
      begins passed absent
    have length := short.length_le
    simp only [List.length_append, List.length_singleton] at length
    omega

/-! ## A file in a directory below a root -/

theorem isAbsolute_of_isName (named : isName name) : Path.isAbsolute name = false :=
  Path.isAbsolute_of_slash_notMem (isName_iff.mp named).2.2.2.1

theorem moves_of_isName (named : isName name) : Path.moves name = [name] := by
  obtain ⟨filled, here, -, plain, -⟩ := isName_iff.mp named
  exact Path.moves_of_not_mem plain (by simp [Path.isIdle, filled, here])

variable {folder : String} {base : Location}

/-- The path above a file in a directory below a root is a path of that directory. -/
theorem exists_parent_join (named : isName folder) (also : isName name)
    (flaw : flaw? ((root.join folder).join name) = none) :
    ∃ directory, Path.parent? ((root.join folder).join name) = some directory ∧
      flaw? directory = none ∧ directory.IsTrimmed ∧ directory.moves = root.moves ++ [folder] ∧
      directory.isAbsolute = root.isAbsolute := by
  have moves : ((root.join folder).join name).moves = root.moves ++ [folder] ++ [name] := by
    rw [Path.moves_join _ (isAbsolute_of_isName also),
      Path.moves_join _ (isAbsolute_of_isName named),
      moves_of_isName named, moves_of_isName also]
  have moving : ((root.join folder).join name).moves ≠ [] := by simp [moves]
  have parent := Path.parent?_of_moves moving
  generalize Path.ofBody _ _ = directory at parent
  obtain ⟨moves', absolute, rest, begins⟩ := Path.of_parent?_eq_some parent
  rw [moves, List.dropLast_concat] at moves'
  have filled : directory ≠ "" := by
    rintro rfl
    rw [show Path.moves "" = [] by decide] at moves'
    exact absurd moves'.symm (by simp)
  have whole : directory ++ String.ofList rest = (root.join folder).join name := by
    rw [← String.toList_inj, String.toList_append, String.toList_ofList, begins]
  refine ⟨directory, parent, flaw?_of_append filled (whole ▸ flaw),
    Path.isTrimmed_of_parent? parent, moves', ?_⟩
  rw [absolute, Path.isAbsolute_join _ (isAbsolute_of_isName also),
    Path.isAbsolute_join _ (isAbsolute_of_isName named)]

theorem target?_join (named : isName folder) (also : isName name)
    (short : folder.utf8ByteSize ≤ nameLimit) (short' : name.utf8ByteSize ≤ nameLimit)
    (flaw : flaw? ((root.join folder).join name) = none) (reached : tree.reach root = .ok base)
    (found : tree.find? (base ++ [folder]) = some .directory) :
    tree.target? ((root.join folder).join name) = some (base ++ [folder] ++ [name]) := by
  have led : tree.reach (root.join folder) = .ok (base ++ [folder]) := by
    have relative := isAbsolute_of_isName named
    rw [reach_eq_walk_moves, startOf_join _ _ relative, Path.moves_join _ relative, walk_append,
      ← reach_eq_walk_moves, reached, moves_of_isName named]
    exact walk_cons_eq_ok_iff.mpr ⟨_, follow_name named short found, rfl⟩
  refine target?_eq_some_iff.mpr ⟨base ++ [folder], name, ?_, short', rfl⟩
  rw [locate_join also flaw, led]
  rfl

/-- Room for a file in a directory below a root: the root is there, no file is where the
directory has to be, and no directory is where the file has to be. -/
structure HasRoom (tree : Tree) (root : Path) (folder name : String) : Prop where
  flaw : flaw? ((root.join folder).join name) = none
  place : ∃ base, tree.reach root = .ok base ∧
    (∀ content, tree.find? (base ++ [folder]) ≠ some (.file content)) ∧
    tree.find? (base ++ [folder, name]) ≠ some .directory

/-- Where there is room for a file, it is written. -/
theorem HasRoom.writeAtomically (room : tree.HasRoom root folder name) (named : isName folder)
    (also : isName name) (short : folder.utf8ByteSize ≤ nameLimit)
    (short' : name.utf8ByteSize ≤ nameLimit) (content : Content) :
    ∃ after, tree.writeAtomically ((root.join folder).join name) content = (after, .ok ()) := by
  obtain ⟨base, reached, free, unbarred⟩ := room.place
  obtain ⟨directory, parent, flaw, trimmed, moves, absolute⟩ :=
    exists_parent_join named also room.flaw
  have walked : tree.walk (tree.startOf directory) root.moves = .ok base := by
    rw [startOf, absolute, ← startOf, ← reach_eq_walk_moves, reached]
  obtain ⟨ready, made, keeps, found, others⟩ :=
    makeDirectories_of_room flaw trimmed moves named short walked free
  have leads := target?_join named also short short' room.flaw (keeps.reach reached) found
  have unbarred' : ready.find? (base ++ [folder] ++ [name]) ≠ some .directory := by
    rw [others _ (by simp), List.append_assoc]
    exact unbarred
  exact ⟨_, (writeAtomically_eq_ok_iff parent).mpr
    ⟨ready, made, overwrite_eq_ok_iff.mpr ⟨_, leads, unbarred', rfl⟩⟩⟩

end AgentKit.Files.Tree
