/-
# Looking at trees

What lies directly in a directory are the entries whose places extend the place of the
directory by one name. A listing names every file once; its order means nothing.

Two trees that hold the same at every place look the same to every operation that
reads. Their listings have the same names, though perhaps in another order.
-/

import AgentKit.Proofs.Files.Change
import Mathlib.Data.List.Nodup

namespace AgentKit.Files.Tree

variable {tree first second : Tree} {directory location : Location} {path : Path}
  {name : String} {entry : Entry}

theorem nameWithin_eq_some_iff :
    nameWithin directory location = some name ↔ location = directory ++ [name] := by
  unfold nameWithin
  constructor
  · intro found
    split at found
    · next above =>
      rw [← List.dropLast_append_getLast? name found, above]
    · contradiction
  · rintro rfl
    simp

theorem mem_children_iff :
    (name, entry) ∈ tree.children directory ↔ tree.find? (directory ++ [name]) = some entry := by
  rw [find?_eq_some_iff (by simp), children, List.mem_filterMap]
  constructor
  · rintro ⟨⟨place, found⟩, member, shape⟩
    obtain ⟨also, within, same⟩ := Option.map_eq_some_iff.mp shape
    obtain ⟨rfl, rfl⟩ : also = name ∧ found = entry := by simpa using same
    rwa [← nameWithin_eq_some_iff.mp within]
  · intro member
    have within : nameWithin directory (directory ++ [name]) = some name :=
      nameWithin_eq_some_iff.mpr rfl
    exact ⟨(directory ++ [name], entry), member, by simp [within]⟩

theorem mem_filesIn_iff :
    name ∈ tree.filesIn directory ↔
      ∃ content, tree.find? (directory ++ [name]) = some (.file content) := by
  rw [filesIn, List.mem_filterMap]
  constructor
  · rintro ⟨⟨also, entry⟩, member, shape⟩
    cases entry with
    | directory => contradiction
    | file content =>
        obtain rfl := Option.some.inj shape
        exact ⟨content, mem_children_iff.mp member⟩
  · rintro ⟨content, found⟩
    exact ⟨(name, .file content), mem_children_iff.mpr found, rfl⟩

/-- A directory has no two entries with one name. -/
theorem nodup_names_children (tree : Tree) (directory : Location) :
    ((tree.children directory).map (·.1)).Nodup := by
  have names : (tree.children directory).map (·.1) =
      (tree.entries.map (·.1)).filterMap (nameWithin directory) := by
    rw [children, List.map_filterMap, List.filterMap_map]
    congr 1
    funext place
    simp [Function.comp_def]
  rw [names]
  refine tree.sound.distinct.filterMap fun first second name found also => ?_
  rw [nameWithin_eq_some_iff.mp found, nameWithin_eq_some_iff.mp also]

/-- A listing names no file twice. -/
theorem nodup_filesIn (tree : Tree) (directory : Location) : (tree.filesIn directory).Nodup := by
  have names := nodup_names_children tree directory
  rw [filesIn]
  generalize tree.children directory = listed at names
  induction listed with
  | nil => exact List.nodup_nil
  | cons child others ih =>
      obtain ⟨name, entry⟩ := child
      rw [List.map_cons, List.nodup_cons] at names
      have rest := ih names.2
      cases entry with
      | directory => simpa using rest
      | file content =>
          refine List.nodup_cons.mpr ⟨fun again => names.1 ?_, rest⟩
          obtain ⟨⟨also, entry⟩, member, shape⟩ := List.mem_filterMap.mp again
          refine List.mem_map.mpr ⟨(also, entry), member, ?_⟩
          cases entry with
          | directory => contradiction
          | file _ => exact Option.some.inj shape

/-- What is at a path at which there is a directory is listed. -/
theorem fileNames_of_isDirectory (there : tree.isDirectory path) :
    ∃ location, tree.reach path = .ok location ∧
      tree.fileNames path = .ok (tree.filesIn location) := by
  obtain ⟨flaw, location, reached⟩ := isDirectory_iff.mp there
  refine ⟨location, reached, ?_⟩
  rcases locate_of_reach flaw reached with located | ⟨above, name, slash, located, short, rfl, found⟩
  · simp [fileNames, located, bind, Except.bind]
  · simp [fileNames, located, lookUp, Nat.not_lt.mpr short, found, bind, Except.bind]

/-! ## Trees that hold the same -/

namespace Alike

theorem lookUp (alike : Alike first second) : second.lookUp = first.lookUp := by
  funext location name
  rw [Tree.lookUp, Tree.lookUp, alike.found]

theorem follow (alike : Alike first second) : second.follow = first.follow := by
  funext location part
  rw [Tree.follow, Tree.follow, alike.lookUp]

theorem startOf (alike : Alike first second) : second.startOf = first.startOf := by
  funext path
  rw [Tree.startOf, Tree.startOf, alike.current]

theorem reach (alike : Alike first second) : second.reach = first.reach := by
  funext path
  rw [Tree.reach, Tree.reach, alike.startOf, Tree.walk, Tree.walk, alike.follow]

theorem locate (alike : Alike first second) : second.locate = first.locate := by
  funext path
  simp only [Tree.locate, Tree.walk, alike.startOf, alike.follow]

theorem entryAt (alike : Alike first second) : second.entryAt = first.entryAt := by
  funext path
  rw [Tree.entryAt, Tree.entryAt, alike.locate, alike.lookUp]

theorem isThere (alike : Alike first second) : second.isThere = first.isThere := by
  funext path
  rw [Tree.isThere, Tree.isThere, alike.entryAt]

theorem isDirectory (alike : Alike first second) : second.isDirectory = first.isDirectory := by
  funext path
  rw [Tree.isDirectory, Tree.isDirectory, alike.entryAt]

theorem readText (alike : Alike first second) : second.readText = first.readText := by
  funext path
  rw [Tree.readText, Tree.readText, alike.entryAt]

end Alike

end AgentKit.Files.Tree
