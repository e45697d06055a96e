/-
# Two ways in which a tree grows

Directories may be added to one tree in two ways. What comes of it fits together: a file of
either tree was there before, so the other tree has it as well and no directory in its place.
So there is a tree around both of them, the first with the directories of the second in
addition.

A directory that can be made in a tree can therefore also be made after other directories
were made: the tree around both bounds what happens.
-/

import AgentKit.Proofs.Files.Within

namespace AgentKit.Files.Tree

variable {tree first second : Tree} {location : Location} {path : Path}

/-- Where the second tree has a directory, the first has one or has nothing. -/
def MakesWay (first second : Tree) : Prop :=
  ∀ location, second.find? location = some .directory →
    first.find? location = none ∨ first.find? location = some .directory

/-- The entries of a tree, and those of another one at places where the first has none. -/
def mergedEntries (first second : Tree) : List (Location × Entry) :=
  first.entries ++ second.entries.filter fun place => (first.find? place.1).isNone

theorem mem_mergedEntries {place : Location × Entry} :
    place ∈ mergedEntries first second ↔
      place ∈ first.entries ∨ place ∈ second.entries ∧ first.find? place.1 = none := by
  simp [mergedEntries]

theorem sound_mergedEntries (way : MakesWay first second) : Sound (mergedEntries first second) := by
  constructor
  · rw [mergedEntries, List.map_append, List.nodup_append]
    refine ⟨first.sound.distinct, second.sound.distinct.sublist (List.filter_sublist.map _), ?_⟩
    rintro _ old _ new rfl
    obtain ⟨⟨place, entry⟩, inside, rfl⟩ := List.mem_map.mp old
    obtain ⟨other, added, same⟩ := List.mem_map.mp new
    have absent : first.find? other.1 = none := by simpa using (List.mem_filter.mp added).2
    have found := (find?_eq_some_iff (first.sound.inside _ inside).1).mpr inside
    rw [same, found] at absent
    contradiction
  · intro place member
    rcases mem_mergedEntries.mp member with old | ⟨new, absent⟩
    · obtain ⟨proper, above⟩ := first.sound.inside _ old
      exact ⟨proper, above.imp_right fun inner => mem_mergedEntries.mpr (.inl inner)⟩
    · -- The directory of an added entry is added too, unless the first tree has it.
      obtain ⟨proper, above⟩ := second.sound.inside _ new
      refine ⟨proper, above.imp_right fun inner => mem_mergedEntries.mpr ?_⟩
      have outer := (second.sound.inside _ inner).1
      rcases way _ ((find?_eq_some_iff outer).mpr inner) with nothing | there
      · exact .inr ⟨inner, nothing⟩
      · exact .inl ((find?_eq_some_iff outer).mp there)
  · intro place member
    rcases mem_mergedEntries.mp member with old | ⟨new, _⟩
    · exact first.sound.named _ old
    · exact second.sound.named _ new

/-- The first tree with what the second has at other places. Relative paths begin where they
begin in the first. -/
def merge (first second : Tree) (way : MakesWay first second) : Tree where
  entries := mergedEntries first second
  workingDirectory := first.current
  sound := sound_mergedEntries way

theorem find?_merge (way : MakesWay first second) (location : Location) :
    (merge first second way).find? location =
      (first.find? location).or (second.find? location) := by
  by_cases top : location = []
  · simp [top]
  · apply Option.ext
    intro entry
    rw [find?_eq_some_iff top, merge, mem_mergedEntries, Option.or_eq_some_iff,
      find?_eq_some_iff top, find?_eq_some_iff top]
    exact or_congr_right and_comm

theorem current_merge (way : MakesWay first second) :
    (merge first second way).current = first.current := by
  have standing : (merge first second way).find? first.current = some .directory := by
    rw [find?_merge, find?_current, Option.some_or]
  exact if_pos standing

namespace Grown

/-- Two trees grown from one make way for each other's directories. -/
theorem makesWay (left : Grown tree first) (right : Grown tree second) :
    MakesWay first second := by
  intro location there
  rcases left.found location with kept | ⟨_, made⟩
  · rcases right.found location with kept' | ⟨absent, _⟩
    · exact .inr (by rw [kept, ← kept', there])
    · exact .inl (by rw [kept, absent])
  · exact .inr made

/-- Two trees grown from one lie within a tree around both. -/
theorem exists_around (left : Grown tree first) (right : Grown tree second) :
    ∃ bound, Within first bound ∧ Within second bound := by
  have way := left.makesWay right
  refine ⟨merge first second way, ⟨⟨current_merge way, ?_⟩, ?_⟩, ⟨⟨?_, ?_⟩, ?_⟩⟩
  · intro location there
    rw [find?_merge, there, Option.some_or]
  · intro location content found
    exact ⟨content, by rw [find?_merge, found, Option.some_or]⟩
  · rw [current_merge, left.current, right.current]
  · intro location there
    rw [find?_merge]
    rcases way location there with nothing | also
    · rw [nothing, Option.none_or, there]
    · rw [also, Option.some_or]
  · intro location content found
    have old : tree.find? location = some (.file content) := by
      rw [← right.find?_of_not_directory (by simp [found]), found]
    exact ⟨content, by rw [find?_merge, left.find?_of_some old, Option.some_or]⟩

/-- A directory that can be made can be made after others. -/
theorem makeDirectories (grown : Grown tree first) (trimmed : path.IsTrimmed)
    (made : tree.makeDirectories path = (second, .ok ())) :
    ∃ next, first.makeDirectories path = (next, .ok ()) := by
  obtain ⟨also, present⟩ := makeDirectories_spec tree path
  rw [made] at also present
  obtain ⟨bound, inside, around⟩ := grown.exists_around also.toGrown
  obtain ⟨next, made', _⟩ := inside.makeDirectories (around.isPresent (present rfl)) trimmed
  exact ⟨next, made'⟩

end Grown

end AgentKit.Files.Tree
