/-
# What operations change

Every operation that succeeds says what the tree holds afterwards at every place.
Writing a file changes the place that its path leads to and nothing else. Making
directories only adds directories, each at a place that one of the paths leads to, and
adds nothing where the directories are there already.

Nothing is said about which of several faults an operation meets.
-/

import AgentKit.Proofs.Files.Walk

namespace AgentKit.Files.Tree

variable {tree before after : Tree} {location place : Location} {path : Path}

/-! ## Looking at a path -/

theorem flaw?_of_locate {spot : Spot} (located : tree.locate path = .ok spot) :
    flaw? path = none := by
  unfold locate at located
  split at located
  · simp at located
  · assumption

/-- A path is followed up to its last step, and then that step is followed. -/
theorem reach_eq_ok_iff {final : String} (last : path.steps.getLast? = some final) :
    tree.reach path = .ok location ↔
      ∃ middle, tree.walk (tree.startOf path) path.steps.dropLast = .ok middle ∧
        tree.follow middle final = .ok location := by
  have whole : path.steps = path.steps.dropLast ++ [final] :=
    (List.dropLast_append_getLast? final last).symm
  rw [reach]
  conv_lhs => rw [whole]
  rw [walk_append_eq_ok_iff]
  simp [walk_cons_eq_ok_iff]

theorem reach_of_locate_name {name : String} {slash : Bool}
    (located : tree.locate path = .ok (.name location name slash))
    (short : name.utf8ByteSize ≤ nameLimit)
    (found : tree.find? (location ++ [name]) = some .directory) :
    tree.reach path = .ok (location ++ [name]) := by
  obtain ⟨_, last, _, _, walked, _⟩ := locate_eq_name_iff.mp located
  exact (reach_eq_ok_iff last).mpr
    ⟨location, walked, follow_name (of_locate_eq_name located).2 short found⟩

/-- A path that leads to a directory without naming it can be followed. -/
theorem reach_of_locate_directory (located : tree.locate path = .ok (.directory location)) :
    tree.reach path = .ok location := by
  have flaw := flaw?_of_locate located
  rcases last : path.steps.getLast? with _ | final
  · have nowhere : path.steps = [] := List.getLast?_eq_none_iff.mp last
    obtain rfl : [] = location := by simpa [locate, flaw, last] using located
    have named : path ≠ "" := by
      rintro rfl
      simp [flaw?] at flaw
    rw [reach, startOf, if_pos (Path.isAbsolute_of_steps_eq_nil nowhere named), nowhere, walk_nil]
  · simp only [locate, flaw, last, bind_eq_ok_iff] at located
    obtain ⟨middle, walked, ends⟩ := located
    refine (reach_eq_ok_iff last).mpr ⟨middle, walked, follow_eq_ok_iff.mpr ?_⟩
    split at ends
    · next here => exact .inl ⟨here, by simpa using ends.symm⟩
    · split at ends
      · next upwards => exact .inr (.inl ⟨upwards, by simpa using ends.symm⟩)
      · simp at ends

/-- A path that can be followed names its directory or leads there by full stops. -/
theorem locate_of_reach (flaw : flaw? path = none) (reached : tree.reach path = .ok location) :
    tree.locate path = .ok (.directory location) ∨
      ∃ above name slash, tree.locate path = .ok (.name above name slash) ∧
        name.utf8ByteSize ≤ nameLimit ∧ location = above ++ [name] ∧
          tree.find? location = some .directory := by
  rcases last : path.steps.getLast? with _ | final
  · have nowhere : path.steps = [] := List.getLast?_eq_none_iff.mp last
    have named : path ≠ "" := by
      rintro rfl
      simp [flaw?] at flaw
    rw [reach, startOf, if_pos (Path.isAbsolute_of_steps_eq_nil nowhere named), nowhere,
      walk_nil] at reached
    left
    simpa [locate, flaw, last] using reached
  · obtain ⟨middle, walked, ends⟩ := (reach_eq_ok_iff last).mp reached
    rcases follow_eq_ok_iff.mp ends with ⟨here, rfl⟩ | ⟨upwards, rfl⟩ |
        ⟨here, upwards, short, found, rfl⟩
    · left
      simp [locate, flaw, last, walked, here, bind, Except.bind]
    · left
      simp [locate, flaw, last, walked, upwards, bind, Except.bind]
    · right
      exact ⟨middle, final, path.endsInSlash,
        locate_eq_name_iff.mpr ⟨flaw, last, here, upwards, walked, rfl⟩, short, rfl, found⟩

/-- A directory is at a path whose text has no flaw and that can be followed. -/
theorem isDirectory_iff :
    tree.isDirectory path ↔ flaw? path = none ∧ ∃ location, tree.reach path = .ok location := by
  have shown : tree.isDirectory path ↔ tree.entryAt path = .ok .directory := by
    unfold isDirectory
    split <;> simp_all
  rw [shown, entryAt, bind_eq_ok_iff]
  constructor
  · rintro ⟨spot, located, entry⟩
    refine ⟨flaw?_of_locate located, ?_⟩
    rcases spot with directory | ⟨directory, name, slash⟩
    · exact ⟨directory, reach_of_locate_directory located⟩
    · obtain ⟨looked, sought, entry⟩ := bind_eq_ok_iff.mp entry
      obtain ⟨short, found⟩ : name.utf8ByteSize ≤ nameLimit ∧
          tree.find? (directory ++ [name]) = looked := by
        unfold lookUp at sought
        split at sought <;> simp_all
      refine ⟨_, reach_of_locate_name located short ?_⟩
      rw [found]
      rcases looked with _ | _ | content
      · simp at entry
      · rfl
      · simp only at entry
        split at entry <;> simp at entry
  · rintro ⟨flaw, location, reached⟩
    rcases locate_of_reach flaw reached with located | ⟨above, name, slash, located, short, rfl, found⟩
    · exact ⟨_, located, rfl⟩
    · refine ⟨_, located, ?_⟩
      simp [lookUp, Nat.not_lt.mpr short, found, bind, Except.bind]

theorem KeepsDirectories.isDirectory (keeps : KeepsDirectories before after)
    (there : before.isDirectory path) : after.isDirectory path := by
  obtain ⟨flaw, location, reached⟩ := isDirectory_iff.mp there
  exact isDirectory_iff.mpr ⟨flaw, location, keeps.reach reached⟩

/-- What is at the path of a file is what lies at the place that the path leads to. -/
theorem entryAt_of_target? (leads : tree.target? path = some place) :
    tree.entryAt path =
      match tree.find? place with
      | some entry => .ok entry
      | none => .error .notFound := by
  obtain ⟨location, name, located, short, rfl⟩ := target?_eq_some_iff.mp leads
  rw [entryAt, located]
  rcases found : tree.find? (location ++ [name]) with _ | _ | content <;>
    simp [lookUp, Nat.not_lt.mpr short, found, bind, Except.bind]

theorem isThere_of_target? (leads : tree.target? path = some place) :
    tree.isThere path = (tree.find? place).isSome := by
  rw [isThere, entryAt_of_target? leads]
  cases tree.find? place <;> rfl

theorem readText_of_target? (leads : tree.target? path = some place) {text : String}
    (found : tree.find? place = some (.file (.text text))) : tree.readText path = .ok text := by
  rw [readText, entryAt_of_target? leads, found]
  rfl

/-! ## Trees that hold the same -/

/-- Two trees hold the same at every place, and relative paths begin at the same place. -/
structure Alike (first second : Tree) : Prop where
  current : second.current = first.current
  found : ∀ location, second.find? location = first.find? location

/-- The files of two trees are the same at a place. -/
def SameFile (before after : Tree) (location : Location) : Prop :=
  ∀ content, after.find? location = some (.file content) ↔
    before.find? location = some (.file content)

/-! ## Writing files -/

/-- A tree is another one with a file written at a place, where no directory was. -/
structure Written (before after : Tree) (place : Location) (content : Content) : Prop where
  free : before.find? place ≠ some .directory
  current : after.current = before.current
  found : ∀ location, after.find? location =
    if location = place then some (.file content) else before.find? location

theorem Written.keepsDirectories {content : Content}
    (written : Written before after place content) : KeepsDirectories before after where
  current := written.current
  directories location found := by
    have elsewhere : location ≠ place := fun here => written.free (here ▸ found)
    rw [written.found, if_neg elsewhere, found]

/-- Writing a file makes no directory. -/
theorem Written.keepsDirectories_symm {content : Content}
    (written : Written before after place content) : KeepsDirectories after before where
  current := written.current.symm
  directories location found := by
    rw [written.found] at found
    split at found
    · simp at found
    · exact found

theorem written_put {content : Content} (leads : tree.target? path = some place)
    (free : tree.find? place ≠ some .directory) :
    Written tree (tree.put place (.file content)) place content where
  free := free
  current := current_put tree place _
  found := find?_put (admits_of_target? leads free content)

/-- Writing a file in place succeeds exactly where a path leads to a place at which no
directory is. -/
theorem overwrite_eq_ok_iff {content : Content} :
    tree.overwrite path content = (after, .ok ()) ↔
      ∃ place, tree.target? path = some place ∧ tree.find? place ≠ some .directory ∧
        after = tree.put place (.file content) := by
  unfold overwrite target?
  rcases located : tree.locate path with fault | directory | ⟨directory, name, slash⟩
  · simp
  · simp
  · rcases slash with _ | _
    · by_cases long : name.utf8ByteSize > nameLimit
      · simp [lookUp, long, Nat.not_le.mpr long]
      · rcases found : tree.find? (directory ++ [name]) with _ | _ | old <;>
          simp [lookUp, long, Nat.not_lt.mp long, found, eq_comm]
    · simp

theorem written_of_overwrite {content : Content}
    (written : tree.overwrite path content = (after, .ok ())) :
    ∃ place, tree.target? path = some place ∧ Written tree after place content := by
  obtain ⟨place, leads, free, rfl⟩ := overwrite_eq_ok_iff.mp written
  exact ⟨place, leads, written_put leads free⟩

/-- A file that cannot be written leaves the tree as it was. -/
theorem eq_of_overwrite_eq_error {content : Content} {fault : Fault}
    (failed : tree.overwrite path content = (after, .error fault)) : after = tree := by
  unfold overwrite at failed
  split at failed
  · simp_all
  · simp_all
  · split at failed
    · simp_all
    · split at failed <;> simp_all

/-- Replacing a file succeeds where writing it in place does, with the same tree. -/
theorem replace_eq_ok_iff {content : Content} :
    tree.replace path content = (after, .ok ()) ↔
      tree.overwrite path content = (after, .ok ()) := by
  unfold replace overwrite
  rcases located : tree.locate path with fault | directory | ⟨directory, name, slash⟩
  · cases fault <;> simp
  · simp
  · by_cases long : name.utf8ByteSize > nameLimit
    · cases slash <;> simp [lookUp, long]
    · rcases found : tree.find? (directory ++ [name]) with _ | _ | old <;>
        cases slash <;> simp [lookUp, long, found]

/-- A file that cannot be replaced leaves the tree as it was. -/
theorem eq_of_replace_eq_error {content : Content} {fault : Fault}
    (failed : tree.replace path content = (after, .error fault)) : after = tree := by
  unfold replace at failed
  repeat' split at failed
  all_goals simp_all

/-- Whether a file can be replaced does not depend on what it is to hold. -/
theorem replace_cases (tree : Tree) (path : Path) :
    (∃ fault, ∀ content, tree.replace path content = (tree, .error fault)) ∨
      ∃ place, tree.target? path = some place ∧ tree.find? place ≠ some .directory ∧
        ∀ content, tree.replace path content = (tree.put place (.file content), .ok ()) := by
  unfold replace target?
  rcases located : tree.locate path with fault | directory | ⟨directory, name, slash⟩
  · left
    cases fault <;> exact ⟨_, fun _ => rfl⟩
  · exact .inl ⟨_, fun _ => rfl⟩
  · by_cases long : name.utf8ByteSize > nameLimit
    · exact .inl ⟨.nameTooLong, fun _ => by simp [lookUp, long]⟩
    · cases slash with
      | true => exact .inl ⟨.notDirectory, fun _ => by simp [lookUp, long]⟩
      | false =>
          by_cases taken : tree.find? (directory ++ [name]) = some .directory
          · exact .inl ⟨.isDirectory, fun _ => by simp [lookUp, long, taken]⟩
          · exact .inr ⟨directory ++ [name], by simp [Nat.not_lt.mp long], taken,
              fun _ => by simp [lookUp, long, taken]⟩

/-! ## Making directories -/

/-- A tree is another one to which only directories were added. -/
structure Grown (before after : Tree) : Prop where
  current : after.current = before.current
  found : ∀ location, after.find? location = before.find? location ∨
    before.find? location = none ∧ after.find? location = some .directory

namespace Grown

theorem refl (tree : Tree) : Grown tree tree :=
  ⟨rfl, fun _ => .inl rfl⟩

theorem trans {middle : Tree} (first : Grown before middle) (second : Grown middle after) :
    Grown before after where
  current := second.current.trans first.current
  found location := by
    rcases second.found location with kept | ⟨absent, new⟩
    · rw [kept]
      exact first.found location
    · rcases first.found location with old | ⟨_, made⟩
      · exact .inr ⟨old ▸ absent, new⟩
      · rw [absent] at made
        contradiction

theorem keepsDirectories (grown : Grown before after) : KeepsDirectories before after where
  current := grown.current
  directories location found := by
    rcases grown.found location with kept | ⟨absent, _⟩
    · rw [kept, found]
    · rw [absent] at found
      contradiction

/-- What is there stays as it is. -/
theorem find?_of_some (grown : Grown before after) {entry : Entry}
    (found : before.find? location = some entry) : after.find? location = some entry := by
  rcases grown.found location with kept | ⟨absent, _⟩
  · rw [kept, found]
  · rw [absent] at found
    contradiction

/-- What is there and no directory was there before. -/
theorem find?_of_not_directory (grown : Grown before after)
    (free : after.find? location ≠ some .directory) :
    after.find? location = before.find? location := by
  rcases grown.found location with kept | ⟨_, made⟩
  · exact kept
  · exact absurd made free

end Grown

/-- A tree is another one to which directories were added that lie where some paths
lead. -/
structure GrownAlong (paths : List Path) (before after : Tree) : Prop extends
    Grown before after where
  along : ∀ location, before.find? location = none → after.find? location = some .directory →
    ∃ path ∈ paths, after.reach path = .ok location

namespace GrownAlong

variable {paths : List Path}

theorem refl (paths : List Path) (tree : Tree) : GrownAlong paths tree tree where
  toGrown := .refl tree
  along location absent found := by
    rw [absent] at found
    contradiction

theorem trans {middle : Tree} (first : GrownAlong paths before middle)
    (second : GrownAlong paths middle after) : GrownAlong paths before after where
  toGrown := first.toGrown.trans second.toGrown
  along location absent found := by
    rcases first.found location with kept | ⟨_, made⟩
    · exact second.along location (kept.trans absent) found
    · obtain ⟨path, member, reached⟩ := first.along location absent made
      exact ⟨path, member, second.keepsDirectories.reach reached⟩

theorem mono {more : List Path} (grown : GrownAlong paths before after)
    (subset : paths ⊆ more) : GrownAlong more before after where
  toGrown := grown.toGrown
  along location absent found := by
    obtain ⟨path, member, reached⟩ := grown.along location absent found
    exact ⟨path, subset member, reached⟩

end GrownAlong

/-- Making a directory adds it where its path leads, or changes nothing. -/
theorem makeDirectory_cases (tree : Tree) (path : Path) :
    (∃ fault, tree.makeDirectory path = (tree, .error fault)) ∨
      ∃ after, tree.makeDirectory path = (after, .ok ()) ∧ GrownAlong [path] tree after ∧
        after.isDirectory path := by
  unfold makeDirectory
  rcases located : tree.locate path with fault | directory | ⟨directory, name, slash⟩
  · exact .inl ⟨fault, rfl⟩
  · exact .inl ⟨.alreadyThere, rfl⟩
  · by_cases long : name.utf8ByteSize > nameLimit
    · exact .inl ⟨.nameTooLong, by simp [lookUp, long]⟩
    rcases absent : tree.find? (directory ++ [name]) with _ | entry
    · right
      refine ⟨tree.put (directory ++ [name]) .directory, by simp [lookUp, long, absent], ?_⟩
      have found := find?_put (admits_of_locate located fun _ => rfl : tree.Admits _ .directory)
      have grown : Grown tree (tree.put (directory ++ [name]) .directory) := by
        refine ⟨current_put _ _ _, fun location => ?_⟩
        rw [found]
        by_cases here : location = directory ++ [name]
        · exact .inr ⟨here ▸ absent, by simp [here]⟩
        · exact .inl (if_neg here)
      have again : (tree.put (directory ++ [name]) .directory).locate path =
          .ok (.name directory name slash) := by
        obtain ⟨flaw, last, here, upwards, walked, ends⟩ := locate_eq_name_iff.mp located
        refine locate_eq_name_iff.mpr ⟨flaw, last, here, upwards, ?_, ends⟩
        rw [grown.keepsDirectories.startOf]
        exact grown.keepsDirectories.walk walked
      have reached := reach_of_locate_name again (Nat.not_lt.mp long) (by rw [found, if_pos rfl])
      refine ⟨⟨grown, fun location nothing made => ⟨path, List.mem_singleton_self _, ?_⟩⟩,
        isDirectory_iff.mpr ⟨flaw?_of_locate again, _, reached⟩⟩
      rw [found] at made
      split at made
      · next here => rw [here, reached]
      · rw [nothing] at made
        contradiction
    · exact .inl ⟨.alreadyThere, by simp [lookUp, long, absent]⟩

/-- A directory is at a path, or the path is empty and means the directory where
relative paths begin. -/
def IsPresent (tree : Tree) (path : Path) : Prop :=
  path = "" ∨ tree.isDirectory path

theorem KeepsDirectories.isPresent (keeps : KeepsDirectories before after)
    (present : before.IsPresent path) : after.IsPresent path :=
  present.imp_right keeps.isDirectory

/-- A directory that cannot be made is as good as made where it is there already. -/
theorem settleDirectory_spec (tree : Tree) (path : Path) :
    GrownAlong [path] tree (settleDirectory path (tree.makeDirectory path)).1 ∧
      ((settleDirectory path (tree.makeDirectory path)).2 = .ok () →
        (settleDirectory path (tree.makeDirectory path)).1.isDirectory path) := by
  rcases makeDirectory_cases tree path with ⟨fault, made⟩ | ⟨after, made, grown, there⟩
  · rw [made, settleDirectory]
    split
    · next there => exact ⟨.refl _ _, fun _ => there⟩
    · exact ⟨.refl _ _, by simp⟩
  · rw [made]
    exact ⟨grown, fun _ => there⟩

/-- A directory that cannot be made leaves the tree as it was. -/
theorem fst_of_makeDirectory_eq_error {fault : Fault}
    (failed : (tree.makeDirectory path).2 = .error fault) :
    tree.makeDirectory path = (tree, .error fault) := by
  rcases makeDirectory_cases tree path with ⟨other, made⟩ | ⟨after, made, _⟩ <;>
    rw [made] at failed
  · rw [made, Except.error.inj failed]
  · contradiction

/-- A directory is settled at once unless one above it is missing. -/
theorem makeMissing_of_settled (named : path ≠ "")
    (settled : (tree.makeDirectory path).2 ≠ .error .notFound) (above : List Path) :
    tree.makeMissing (path :: above) = settleDirectory path (tree.makeDirectory path) := by
  rw [makeMissing, if_neg fun none => named
    (Path.eq_empty_of_components_eq_nil (List.isEmpty_iff.mp none))]
  split
  · next made => exact absurd (congrArg Prod.snd made) settled
  · rfl

/-- Where a directory above is missing, those above are made before. -/
theorem makeMissing_of_missing (named : path ≠ "")
    (missing : (tree.makeDirectory path).2 = .error .notFound) (above : List Path) :
    (∃ fault, (tree.makeMissing above).2 = .error fault ∧
        tree.makeMissing (path :: above) = ((tree.makeMissing above).1, .error fault)) ∨
      (tree.makeMissing above).2 = .ok () ∧
        tree.makeMissing (path :: above) =
          settleDirectory path ((tree.makeMissing above).1.makeDirectory path) := by
  rw [makeMissing, if_neg fun none => named
    (Path.eq_empty_of_components_eq_nil (List.isEmpty_iff.mp none))]
  simp only [fst_of_makeDirectory_eq_error missing]
  rcases tree.makeMissing above with ⟨next, fault | ⟨⟩⟩
  · exact .inl ⟨fault, rfl, rfl⟩
  · exact .inr ⟨rfl, rfl⟩

/-- One step of making missing directories: either the directory is settled at once, or
those above are made before. -/
theorem makeMissing_cons (path : Path) (above : List Path) (tree : Tree) :
    tree.makeMissing (path :: above) = (tree, .ok ()) ∧ path = "" ∨
      tree.makeMissing (path :: above) = settleDirectory path (tree.makeDirectory path) ∨
      (∃ fault, (tree.makeMissing above).2 = .error fault ∧
        tree.makeMissing (path :: above) = ((tree.makeMissing above).1, .error fault)) ∨
      tree.makeMissing (path :: above) =
        settleDirectory path ((tree.makeMissing above).1.makeDirectory path) := by
  by_cases unnamed : path = ""
  · exact .inl ⟨by rw [makeMissing, if_pos (by rw [unnamed]; decide)], unnamed⟩
  · right
    by_cases missing : (tree.makeDirectory path).2 = .error .notFound
    · exact .inr ((makeMissing_of_missing unnamed missing above).imp_right And.right)
    · exact .inl (makeMissing_of_settled unnamed missing above)

/-- Making the missing directories among some paths adds directories along them. If it
succeeds, the first path is present. -/
theorem makeMissing_spec (paths : List Path) (tree : Tree) :
    GrownAlong paths tree (tree.makeMissing paths).1 ∧
      ((tree.makeMissing paths).2 = .ok () →
        ∀ path ∈ paths.head?, (tree.makeMissing paths).1.IsPresent path) := by
  induction paths generalizing tree with
  | nil => exact ⟨.refl _ _, by simp⟩
  | cons path above ih =>
      have first : [path] ⊆ path :: above := by simp
      have others : above ⊆ path :: above := List.subset_cons_self _ _
      rcases makeMissing_cons path above tree with
        ⟨made, unnamed⟩ | made | ⟨fault, _, made⟩ | made <;> rw [made]
      · exact ⟨.refl _ _, fun _ _ here => .inl (by simp_all)⟩
      · obtain ⟨grown, there⟩ := settleDirectory_spec tree path
        exact ⟨grown.mono first, fun done _ here => .inr (by simp_all)⟩
      · exact ⟨(ih tree).1.mono others, by simp⟩
      · obtain ⟨grown, there⟩ := settleDirectory_spec (tree.makeMissing above).1 path
        exact ⟨((ih tree).1.mono others).trans (grown.mono first),
          fun done _ here => .inr (by simp_all)⟩

theorem head?_ancestorsWithin (limit : Nat) (path : Path) :
    (Path.ancestorsWithin limit path).head? = some path := by
  cases limit with
  | zero => rfl
  | succ limit =>
      rw [Path.ancestorsWithin]
      split <;> rfl

theorem head?_ancestors (path : Path) : path.ancestors.head? = some path :=
  head?_ancestorsWithin path.length path

/-- Making a directory with those above it adds directories along its path. If it
succeeds, the path is present. -/
theorem makeDirectories_spec (tree : Tree) (path : Path) :
    GrownAlong path.ancestors tree (tree.makeDirectories path).1 ∧
      ((tree.makeDirectories path).2 = .ok () →
        (tree.makeDirectories path).1.IsPresent path) := by
  obtain ⟨grown, present⟩ := makeMissing_spec path.ancestors tree
  exact ⟨grown, fun done => present done path (head?_ancestors path)⟩

/-- Writing a file at once makes its directory and writes the file. -/
theorem writeAtomically_eq_ok_iff {directory : Path} (parent : path.parent? = some directory)
    {content : Content} :
    tree.writeAtomically path content = (after, .ok ()) ↔
      ∃ ready, tree.makeDirectories directory = (ready, .ok ()) ∧
        ready.overwrite path content = (after, .ok ()) := by
  simp only [writeAtomically, parent]
  rcases tree.makeDirectories directory with ⟨ready, fault | ⟨⟩⟩
  · simp
  · simp [replace_eq_ok_iff]

/-- Whether a file can be written at once does not depend on what it is to hold. -/
theorem writeAtomically_cases (tree : Tree) (path : Path) :
    (∃ after fault, ∀ content, tree.writeAtomically path content = (after, .error fault)) ∨
      ∃ (ready : Tree) (place : Location), ready.target? path = some place ∧
        ready.find? place ≠ some .directory ∧
        ∀ content, tree.writeAtomically path content =
          (ready.put place (.file content), .ok ()) := by
  have moved (ready : Tree) : _ := replace_cases ready path
  unfold writeAtomically
  cases path.parent? with
  | none =>
      rcases moved tree with ⟨fault, failed⟩ | ⟨place, leads, free, written⟩
      · exact .inl ⟨tree, fault, failed⟩
      · exact .inr ⟨tree, place, leads, free, written⟩
  | some directory =>
      dsimp only
      rcases tree.makeDirectories directory with ⟨ready, fault | ⟨⟩⟩
      · exact .inl ⟨ready, fault, fun _ => rfl⟩
      · rcases moved ready with ⟨fault, failed⟩ | ⟨place, leads, free, written⟩
        · exact .inl ⟨ready, fault, failed⟩
        · exact .inr ⟨ready, place, leads, free, written⟩
/-- A directory that is there is not made. -/
theorem makeDirectory_of_isDirectory (there : tree.isDirectory path) :
    tree.makeDirectory path = (tree, .error .alreadyThere) := by
  obtain ⟨flaw, location, reached⟩ := isDirectory_iff.mp there
  unfold makeDirectory
  rcases locate_of_reach flaw reached with
    located | ⟨above, name, slash, located, short, rfl, found⟩
  · rw [located]
  · simp [located, lookUp, Nat.not_lt.mpr short, found]

/-- Making a directory that is present changes nothing. -/
theorem makeDirectories_of_isPresent (present : tree.IsPresent path) :
    tree.makeDirectories path = (tree, .ok ()) := by
  obtain ⟨others, ancestors⟩ := List.head?_eq_some_iff.mp (head?_ancestors path)
  rw [makeDirectories, ancestors, makeMissing]
  split
  · rfl
  · next named =>
    have there : tree.isDirectory path := by
      rcases present with rfl | there
      · exact absurd (by decide) named
      · exact there
    simp [makeDirectory_of_isDirectory there, settleDirectory, there]

end AgentKit.Files.Tree
