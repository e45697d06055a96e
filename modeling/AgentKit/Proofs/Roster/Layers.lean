/-
# Layers in a tree that changes

Loading looks at the definition files of the default source and at what is at their names
in the directory of overrides. A change of a tree keeps the defaults if it keeps the
directories and these files, and an override is what it was if its place is as it was and
the directory of overrides did not come to be found. Nothing else of a change matters, and
what it does to the one layer need not be known for the other.
-/

import AgentKit.Proofs.Roster.Invariants
import AgentKit.Proofs.Roster.Shadowing
import AgentKit.Settings.Storage

namespace AgentKit.LoadRequest

open Files (Tree Entry Location)
open Files.Tree (KeepsDirectories SameFile)

variable {request : LoadRequest} {before middle after tree : Tree} {file : String}
  {directory : Path} {roster : Roster} {entry : Entry}

/-! ## Defaults -/

/-- The directory of the definitions is there, unless the bundled ones are used. -/
def HasDefaults (request : LoadRequest) (tree : Tree) : Prop :=
  ∀ path, request.defaults = .directory path → tree.isDirectory path

theorem hasDefaults_of_load (loaded : request.load tree = .ok roster) :
    request.HasDefaults tree := by
  intro path source
  cases missing : tree.isDirectory path with
  | true => rfl
  | false =>
      rw [load, files_of_missing source missing] at loaded
      contradiction

/-- Directories stay where they were, and the definition files of the default source are
the same files with the same content. -/
structure KeepsDefaults (request : LoadRequest) (before after : Tree) : Prop extends
    KeepsDirectories before after where
  definitions : ∀ path location file, request.defaults = .directory path →
    before.reach path = .ok location → Definition.stem? file ≠ none →
      SameFile before after (location ++ [file])

namespace KeepsDefaults

theorem refl (request : LoadRequest) (tree : Tree) : request.KeepsDefaults tree tree where
  toKeepsDirectories := .refl tree
  definitions _ _ _ _ _ _ _ := .rfl

theorem trans (first : request.KeepsDefaults before middle)
    (second : request.KeepsDefaults middle after) : request.KeepsDefaults before after where
  toKeepsDirectories := first.toKeepsDirectories.trans second.toKeepsDirectories
  definitions path location file source led named content :=
    (second.definitions path location file source (first.toKeepsDirectories.reach led) named
      content).trans (first.definitions path location file source led named content)

theorem hasDefaults (keeps : request.KeepsDefaults before after)
    (there : request.HasDefaults before) : request.HasDefaults after :=
  fun path source => keeps.toKeepsDirectories.isDirectory (there path source)

theorem considers_iff (keeps : request.KeepsDefaults before after)
    (there : request.HasDefaults before) :
    request.Considers after file ↔ request.Considers before file := by
  refine and_congr_right fun stem => ?_
  have named := Option.isSome_iff_ne_none.mp (isSome_stem?_iff.mpr stem)
  cases source : request.defaults with
  | bundled => exact Iff.rfl
  | directory path =>
      obtain ⟨_, place, led⟩ := Tree.isDirectory_iff.mp (there path source)
      have again := keeps.toKeepsDirectories.reach led
      simp only [led, again, Except.ok.injEq, existsAndEq, true_and]
      exact exists_congr fun content => keeps.definitions path place file source led named content

theorem defaultText_eq (keeps : request.KeepsDefaults before after)
    (considered : request.Considers before file) :
    request.defaultText after file = request.defaultText before file := by
  have named := isName_of_considers considered
  obtain ⟨stem, found⟩ := considered
  have defined := Option.isSome_iff_ne_none.mp (isSome_stem?_iff.mpr stem)
  cases source : request.defaults with
  | bundled => simp only [defaultText, source]
  | directory path =>
      rw [source] at found
      obtain ⟨location, content, led, found⟩ := found
      have still := (keeps.definitions path location file source led defined content).mpr found
      have entry := Tree.entryAt_join_congr named led (keeps.toKeepsDirectories.reach led)
        (still.trans found.symm)
      simp only [defaultText, source, Tree.readText, entry]

/-- What is loaded before and after a change are rosters of the same files. -/
theorem load_eq (keeps : request.KeepsDefaults before after)
    (loaded : request.load before = .ok roster) :
    ∃ names, (∀ file, file ∈ names ↔ request.Considers before file) ∧
      roster = Roster.ofFiles (request.agentOf before) names ∧
      request.load after = .ok (Roster.ofFiles (request.agentOf after) names) := by
  have there := hasDefaults_of_load loaded
  rcases files_spec request before with
    ⟨names, listed, sorted, considered⟩ | ⟨path, source, missing, _⟩
  · rcases files_spec request after with
      ⟨names', listed', sorted', considered'⟩ | ⟨path, source, missing, _⟩
    · have same : names' = names := by
        refine eq_of_pairwise_lt sorted' sorted fun file => ?_
        rw [considered, considered', keeps.considers_iff there]
      rw [load_of_files listed] at loaded
      exact ⟨names, considered, (Except.ok.inj loaded).symm, by rw [load_of_files listed', same]⟩
    · rw [keeps.hasDefaults there path source] at missing
      contradiction
  · rw [there path source] at missing
    contradiction

end KeepsDefaults

/-! ## Overrides -/

theorem isOrdinary_overrides : Path.IsOrdinary overridesDirectory := by
  decide

theorem moves_overrides : Path.moves overridesDirectory = [toolkitDirectory, "agents"] := by
  decide

theorem join_overrides_ne_empty (root : Path) : root.join overridesDirectory ≠ "" :=
  Path.join_ne_empty root (by decide) isOrdinary_overrides.isAbsolute

theorem overrideAt_eq_none_iff :
    request.overrideAt tree file = none ↔ ¬ request.Overrides tree file := by
  rw [Option.eq_none_iff_forall_ne_some, Overrides]
  simp only [ne_eq, overrideAt_eq_some_iff, presentOverrides_eq_some_iff, Tree.isThere_iff]
  constructor
  · rintro none ⟨directory, given, there, entry, found⟩
    exact none entry ⟨directory, ⟨given, there⟩, found⟩
  · rintro bare entry ⟨directory, ⟨given, there⟩, found⟩
    exact bare ⟨directory, given, there, entry, found⟩

/-- The directory of overrides is there where something is in it. -/
theorem overrideAt_eq_some_iff_entryAt (named : Files.isName file)
    (given : request.overrides = some directory) (filled : directory ≠ "") :
    request.overrideAt tree file = some entry ↔ tree.entryAt (directory.join file) = .ok entry := by
  rw [overrideAt_eq_some_iff]
  constructor
  · rintro ⟨also, present, found⟩
    rw [(presentOverrides_eq_some_iff.mp present).1] at given
    rwa [Option.some.inj given] at found
  · intro found
    have relative := Path.isAbsolute_of_slash_notMem (Files.isName_iff.mp named).2.2.2.1
    obtain ⟨flaw, _, location, led, _⟩ := (Tree.entryAt_join_eq_ok_iff named).mp found
    have there : tree.isDirectory directory :=
      Tree.isDirectory_iff.mpr ⟨Tree.flaw?_of_join filled relative flaw, location, led⟩
    exact ⟨directory, presentOverrides_eq_some_iff.mpr ⟨given, there⟩, found⟩

/-- An override lies where the path of its name among the overrides leads. -/
theorem overrideAt_of_target? (named : Files.isName file)
    (given : request.overrides = some directory) (filled : directory ≠ "") {place : Location}
    (leads : tree.target? (directory.join file) = some place) :
    request.overrideAt tree file = tree.find? place := by
  refine Option.ext fun entry => ?_
  rw [overrideAt_eq_some_iff_entryAt named given filled, Tree.entryAt_of_target? leads]
  cases tree.find? place <;> simp

/-- An override is what it was if its place is as it was, and the directory of overrides
was found where it was there. -/
theorem overrideAt_of_keeps (keeps : KeepsDirectories before after) (named : Files.isName file)
    (given : request.overrides = some directory) (filled : directory ≠ "")
    (found_before : ∀ location, after.reach directory = .ok location →
      before.find? location = some .directory → before.reach directory = .ok location)
    (same : ∀ location, after.reach directory = .ok location →
      after.find? (location ++ [file]) = before.find? (location ++ [file])) :
    request.overrideAt after file = request.overrideAt before file := by
  refine Option.ext fun entry => ?_
  rw [overrideAt_eq_some_iff_entryAt named given filled,
    overrideAt_eq_some_iff_entryAt named given filled]
  exact Tree.entryAt_join_congr_of_keeps named keeps found_before same

end AgentKit.LoadRequest
