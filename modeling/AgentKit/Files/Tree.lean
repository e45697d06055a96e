/-
# File trees

A file tree says what there is at every place: a file, a directory or nothing. The
tree of a command holds the part of the file system that the command can reach. A
place is the list of names that lead to it from the top.

No place has two entries, every entry lies in a directory, and every name is one that
a directory can hold. These facts are part of a tree, so an operation that changes a
tree keeps them; what it cannot put anywhere it leaves out.
-/

import AgentKit.Files.Path

namespace AgentKit.Files

/-- A place in a file tree: the names that lead to it from the top. -/
abbrev Location := List String

/-- What a file holds. Bytes that are text are kept as text. -/
inductive Content where
  | text (value : String)
  | binary (bytes : ByteArray)

instance : DecidableEq Content
  | .text left, .text right => decidable_of_iff (left = right) (by simp)
  | .binary left, .binary right =>
    @decidable_of_iff _ (left = right) (by simp) (ByteArray.decEq left right)
  | .text _, .binary _ => isFalse nofun
  | .binary _, .text _ => isFalse nofun

/-- What there is at a place. -/
inductive Entry where
  | directory
  | file (content : Content)
  deriving DecidableEq

/-- Whether a text can be the name of an entry of a directory. -/
def isName (text : String) : Bool :=
  text ≠ "" && text ≠ "." && text ≠ ".." &&
    !text.toList.contains '/' && !text.toList.contains '\x00'

/-- The entries of a file tree fit together. -/
structure Sound (entries : List (Location × Entry)) : Prop where
  /-- No place has two entries. -/
  distinct : (entries.map (·.1)).Nodup
  /-- An entry lies in a directory. The top is no entry, because it is always there. -/
  inside : ∀ place ∈ entries, place.1 ≠ [] ∧
    (place.1.dropLast = [] ∨ (place.1.dropLast, .directory) ∈ entries)
  /-- A directory can hold the names on the way to an entry. -/
  named : ∀ place ∈ entries, ∀ name ∈ place.1, isName name

instance (entries : List (Location × Entry)) : Decidable (Sound entries) :=
  decidable_of_iff
    ((entries.map (·.1)).Nodup ∧
      (∀ place ∈ entries, place.1 ≠ [] ∧
        (place.1.dropLast = [] ∨ (place.1.dropLast, .directory) ∈ entries)) ∧
      ∀ place ∈ entries, ∀ name ∈ place.1, isName name)
    ⟨fun ⟨distinct, inside, named⟩ => ⟨distinct, inside, named⟩,
      fun sound => ⟨sound.distinct, sound.inside, sound.named⟩⟩

/-- A file tree, and the directory where relative paths begin. -/
structure Tree where
  entries : List (Location × Entry)
  workingDirectory : Location
  sound : Sound entries := by decide

/-- A member of a list without repeated keys is what a search for its key finds. -/
private theorem lookup_eq_some_iff {entries : List (Location × Entry)}
    (distinct : (entries.map (·.1)).Nodup) {location : Location} {entry : Entry} :
    entries.lookup location = some entry ↔ (location, entry) ∈ entries := by
  induction entries with
  | nil => simp
  | cons first others ih =>
      obtain ⟨place, found⟩ := first
      simp only [List.map_cons, List.nodup_cons] at distinct
      by_cases here : location = place
      · subst here
        have absent : (location, entry) ∉ others := fun member =>
          distinct.1 (List.mem_map_of_mem member)
        simp [absent, eq_comm]
      · have elsewhere : (location == place) = false := by simpa using here
        simp [List.lookup_cons, elsewhere, here, ih distinct.2]

namespace Tree

/-- What there is at a place. The top is always a directory. -/
def find? (tree : Tree) (location : Location) : Option Entry :=
  if location.isEmpty then some .directory else tree.entries.lookup location

@[simp]
theorem find?_nil (tree : Tree) : tree.find? [] = some .directory := rfl

theorem find?_eq_some_iff {tree : Tree} {location : Location} {entry : Entry}
    (proper : location ≠ []) :
    tree.find? location = some entry ↔ (location, entry) ∈ tree.entries := by
  rw [find?, if_neg (by simpa using proper)]
  exact lookup_eq_some_iff tree.sound.distinct

/-- What lies at a place lies in a directory. -/
theorem find?_dropLast {tree : Tree} {location : Location} {entry : Entry}
    (found : tree.find? location = some entry) :
    tree.find? location.dropLast = some .directory := by
  by_cases top : location = []
  · simp [top]
  · have member := (find?_eq_some_iff top).mp found
    rcases (tree.sound.inside _ member).2 with outermost | inner
    · simp [show location.dropLast = [] from outermost]
    · exact (find?_eq_some_iff (tree.sound.inside _ inner).1).mpr inner

/-- The names on the way to an entry are names that a directory can hold. -/
theorem isName_of_find? {tree : Tree} {location : Location} {entry : Entry}
    (found : tree.find? location = some entry) : ∀ name ∈ location, isName name := by
  by_cases top : location = []
  · simp [top]
  · exact tree.sound.named _ ((find?_eq_some_iff top).mp found)

/-- The directory where relative paths begin, or the top where that has gone. -/
def current (tree : Tree) : Location :=
  if tree.find? tree.workingDirectory = some .directory then tree.workingDirectory else []

theorem find?_current (tree : Tree) : tree.find? tree.current = some .directory := by
  unfold current
  split
  · assumption
  · rfl

/-- The working directory as an absolute path. -/
def workingPath (tree : Tree) : Path :=
  "/" ++ "/".intercalate tree.current

/-- Whether something can be put at a place: it comes to lie in a directory under a
proper name, and no directory makes way for a file. -/
def Admits (tree : Tree) (location : Location) (entry : Entry) : Prop :=
  location ≠ [] ∧ (∀ name ∈ location, isName name) ∧
    tree.find? location.dropLast = some .directory ∧
    (tree.find? location = some .directory → entry = .directory)

instance (tree : Tree) (location : Location) (entry : Entry) :
    Decidable (tree.Admits location entry) :=
  inferInstanceAs (Decidable (_ ∧ _ ∧ _ ∧ _))

/-- The entries of a tree with something at a place, in addition to or instead of what
is there. -/
def entriesWith (tree : Tree) (location : Location) (entry : Entry) :
    List (Location × Entry) :=
  (location, entry) :: tree.entries.filter (·.1 != location)

theorem mem_entriesWith {tree : Tree} {location : Location} {entry : Entry}
    {place : Location × Entry} :
    place ∈ tree.entriesWith location entry ↔
      place = (location, entry) ∨ place ∈ tree.entries ∧ place.1 ≠ location := by
  simp [entriesWith]

theorem sound_entriesWith {tree : Tree} {location : Location} {entry : Entry}
    (admitted : tree.Admits location entry) : Sound (tree.entriesWith location entry) := by
  obtain ⟨proper, named, inside, kept⟩ := admitted
  -- A directory above an entry is still there: only the place itself has changed, and a
  -- directory at that place stays one.
  have survives {above : Location} (found : tree.find? above = some .directory) :
      above = [] ∨ (above, .directory) ∈ tree.entriesWith location entry := by
    by_cases top : above = []
    · exact .inl top
    · right
      rw [mem_entriesWith]
      by_cases here : above = location
      · subst here
        rw [kept found]
        exact .inl rfl
      · exact .inr ⟨(find?_eq_some_iff top).mp found, here⟩
  constructor
  · have others : ((tree.entries.filter (·.1 != location)).map (·.1)).Nodup :=
      tree.sound.distinct.sublist (List.filter_sublist.map _)
    simp only [entriesWith, List.map_cons, List.nodup_cons]
    refine ⟨fun repeated => ?_, others⟩
    obtain ⟨place, member, same⟩ := List.mem_map.mp repeated
    simp [same] at member
  · intro place member
    rcases mem_entriesWith.mp member with rfl | ⟨old, _⟩
    · exact ⟨proper, survives inside⟩
    · have known := tree.sound.inside _ old
      have found : tree.find? place.1 = some place.2 := (find?_eq_some_iff known.1).mpr old
      exact ⟨known.1, survives (find?_dropLast found)⟩
  · intro place member
    rcases mem_entriesWith.mp member with rfl | ⟨old, _⟩
    · exact named
    · exact tree.sound.named _ old

/-- The tree with something at a place, in addition to or instead of what is there.
What cannot be put there is left out. Relative paths begin where they began before. -/
def put (tree : Tree) (location : Location) (entry : Entry) : Tree :=
  if admitted : tree.Admits location entry then
    { entries := tree.entriesWith location entry
      workingDirectory := tree.current
      sound := sound_entriesWith admitted }
  else tree

/-- What there is after something was put at a place. -/
theorem find?_put {tree : Tree} {location : Location} {entry : Entry}
    (admitted : tree.Admits location entry) (place : Location) :
    (tree.put location entry).find? place =
      if place = location then some entry else tree.find? place := by
  by_cases top : place = []
  · simp [top, Ne.symm admitted.1]
  · apply Option.ext
    intro found
    rw [find?_eq_some_iff top, put, dif_pos admitted, mem_entriesWith]
    by_cases here : place = location
    · simp [here, eq_comm]
    · simp [here, find?_eq_some_iff top]

@[simp]
theorem current_put (tree : Tree) (location : Location) (entry : Entry) :
    (tree.put location entry).current = tree.current := by
  by_cases admitted : tree.Admits location entry
  · have standing : (tree.put location entry).find? tree.current = some .directory := by
      rw [find?_put admitted]
      split
      · next here => rw [admitted.2.2.2 (here ▸ tree.find?_current)]
      · exact tree.find?_current
    have begins : (tree.put location entry).workingDirectory = tree.current := by
      rw [put, dif_pos admitted]
    rw [current, begins, if_pos standing]
  · rw [put, dif_neg admitted]

/-- The tree without a place and everything below it. -/
def prune (tree : Tree) (location : Location) : Tree :=
  { tree with
    entries := tree.entries.filter fun entry => !location.isPrefixOf entry.1
    sound := by
      constructor
      · exact tree.sound.distinct.sublist (List.filter_sublist.map _)
      · intro place member
        obtain ⟨old, outside⟩ := List.mem_filter.mp member
        obtain ⟨proper, above⟩ := tree.sound.inside _ old
        refine ⟨proper, above.imp_right fun found => List.mem_filter.mpr ⟨found, ?_⟩⟩
        -- What lies below a pruned directory would itself lie below the place.
        simp only [Bool.not_eq_eq_eq_not, Bool.not_true, ← Bool.not_eq_true,
          List.isPrefixOf_iff_prefix] at outside ⊢
        exact fun below => outside (below.trans <| List.dropLast_prefix _)
      · exact fun place member => tree.sound.named _ (List.mem_filter.mp member).1 }

/-- The name under which a place lies directly in a directory, if it does. -/
def nameWithin (directory location : Location) : Option String :=
  if location.dropLast = directory then location.getLast? else none

/-- The entries that lie directly in a directory, with their names. Their order means
nothing. -/
def children (tree : Tree) (directory : Location) : List (String × Entry) :=
  tree.entries.filterMap fun (location, entry) =>
    (nameWithin directory location).map (·, entry)

end Tree

end AgentKit.Files
