/-
# Directories before files

A delivery makes the directories of its files before it writes the first of them. A
directory that cannot be made therefore leaves every file as it was, and the failure names
such a directory. Whether a directory can be made does not depend on the directories that
were made before it, so it is a question about the tree at the beginning.

Once all directories are made, the way to every file is there, and no task can take it away:
writing files keeps directories. So a write that still fails fails for another reason. The
only exceptions are the empty path and a path with a full stop behind its last name, which
asks for that name as a directory; such a directory is not made.
-/

import AgentKit.Proofs.Delivery.Touching
import AgentKit.Proofs.Files.Merging

namespace AgentKit

namespace Files.Tree

variable {tree after : Tree} {path above directory : Path} {location : Location}

/-! ## What stands in the way -/

/-- A file on the way to a directory is in the way. -/
theorem makeDirectories_ne_ok_of_file {name : String} {rest : List String} {content : Content}
    (absolute : above.isAbsolute = directory.isAbsolute)
    (way : directory.moves = above.moves ++ name :: rest) (upwards : name ≠ "..")
    (reached : tree.reach above = .ok location)
    (blocked : tree.find? (location ++ [name]) = some (.file content)) (after : Tree) :
    tree.makeDirectories directory ≠ (after, .ok ()) := by
  intro made
  obtain ⟨grown, present⟩ := makeDirectories_spec tree directory
  rw [made] at grown present
  obtain ⟨place, led⟩ := reach_of_isPresent (present rfl)
  have middle := grown.keepsDirectories.reach reached
  rw [reach_eq_walk_moves, startOf, absolute, ← startOf] at middle
  rw [reach_eq_walk_moves, way, walk_append_eq_ok_iff] at led
  obtain ⟨location', walked, further⟩ := led
  obtain rfl := Except.ok.inj (middle.symm.trans walked)
  obtain ⟨next, followed, _⟩ := walk_cons_eq_ok_iff.mp further
  have member : name ∈ directory.moves := by simp [way]
  rcases follow_eq_ok_iff.mp followed with ⟨here, _⟩ | ⟨up, _⟩ | ⟨_, _, _, found, _⟩
  · exact Path.ne_dot_of_mem_moves member here
  · exact upwards up
  · rw [grown.toGrown.find?_of_some blocked] at found
    simp at found

/-! ## Why a write fails -/

/-- The empty path leads nowhere, and neither does a text that is too long or no path. -/
theorem of_flaw?_eq_some {fault : Fault} (flaw : flaw? path = some fault) :
    fault = .zeroInPath ∨ fault = .nameTooLong ∨ path = "" := by
  unfold flaw? at flaw
  split at flaw
  · exact .inl (Option.some.inj flaw).symm
  · split at flaw
    · next unnamed => exact .inr (.inr (by simpa using unnamed))
    · split at flaw
      · exact .inr (.inl (Option.some.inj flaw).symm)
      · contradiction

/-- Where the directory above a path is there, the path leads somewhere. -/
theorem exists_locate
    (there : ∀ above, path.parent? = some above → ∃ location, tree.reach above = .ok location)
    (flaw : flaw? path = none) (ends : path.steps.getLast? ≠ some ".") :
    ∃ spot, tree.locate path = .ok spot := by
  rcases last : path.steps.getLast? with _ | final
  · exact ⟨.directory [], by simp only [locate, flaw, last]⟩
  · have here : final ≠ "." := by simpa [last] using ends
    have parent := Path.parent?_of_moves (moves_ne_nil_of_getLast? last here)
    obtain ⟨location, reached⟩ := there _ parent
    have walked := walk_dropLast_of_parent? parent ends reached
    simp only [locate, flaw, last, walked, bind, Except.bind, if_neg here]
    split
    · exact ⟨_, rfl⟩
    · exact ⟨_, rfl⟩

/-- A write fails at a directory or at a name that is too long, if its path leads
somewhere. -/
theorem fault_of_locate {spot : Spot} {content : Content} {fault : Fault}
    (located : tree.locate path = .ok spot)
    (failed : tree.overwrite path content = (after, .error fault)) :
    fault = .isDirectory ∨ fault = .nameTooLong := by
  have same := congrArg Prod.snd failed
  rcases spot with location | ⟨location, name, slash⟩
  · exact .inl (by simpa [overwrite, located, eq_comm] using same)
  · cases slash with
    | true => exact .inl (by simpa [overwrite, located, eq_comm] using same)
    | false =>
        by_cases long : name.utf8ByteSize > nameLimit
        · exact .inr (by simpa [overwrite, located, lookUp, long, eq_comm] using same)
        · left
          rcases found : tree.find? (location ++ [name]) with _ | _ | old <;>
            simp [overwrite, located, lookUp, long, found] at same
          exact same.symm

/-- The ways in which a write can fail where the directory above is there. -/
theorem fault_of_overwrite {content : Content} {fault : Fault}
    (there : ∀ above, path.parent? = some above → ∃ location, tree.reach above = .ok location)
    (failed : tree.overwrite path content = (after, .error fault)) :
    fault = .isDirectory ∨ fault = .nameTooLong ∨ fault = .zeroInPath ∨
      path = "" ∨ path.steps.getLast? = some "." := by
  by_cases ends : path.steps.getLast? = some "."
  · exact .inr (.inr (.inr (.inr ends)))
  rcases flaw : flaw? path with _ | other
  · obtain ⟨spot, located⟩ := exists_locate there flaw ends
    rcases fault_of_locate located failed with taken | long
    · exact .inl taken
    · exact .inr (.inl long)
  · have located : tree.locate path = .error other := by rw [locate, flaw]
    have same : other = fault := by simpa [overwrite, located] using congrArg Prod.snd failed
    rcases of_flaw?_eq_some (same ▸ flaw) with zero | long | unnamed
    · exact .inr (.inr (.inl zero))
    · exact .inr (.inl long)
    · exact .inr (.inr (.inr (.inl unnamed)))

end Files.Tree

namespace Delivery

open Files (Fault Tree)
open Files.Tree (Grown KeepsDirectories)

variable {root : Path} {artifacts schedule : List Artifact} {artifact : Artifact}
  {tree ready after : Tree} {paths : List Path} {failure : Failure} {directory : Path}

/-! ## Making the directories -/

/-- A directory in which a delivery puts a file. -/
def IsNeeded (root : Path) (artifacts : List Artifact) (directory : Path) : Prop :=
  ∃ artifact, IsLast artifact artifacts ∧ directoryOf root artifact = some directory

/-- A directory cannot be made in a tree, in whichever way the artifacts write its path. -/
def IsBarred (root : Path) (artifacts : List Artifact) (tree : Tree) (directory : Path) : Prop :=
  ∀ written, IsNeeded root artifacts written → written.components = directory.components →
    ∀ after, tree.makeDirectories written ≠ (after, .ok ())

/-- A file on the way to a directory bars it. -/
theorem isBarred_of_file {above : Path} {location : Files.Location} {name : String}
    {rest : List String} {content : Files.Content}
    (absolute : above.isAbsolute = directory.isAbsolute)
    (way : directory.moves = above.moves ++ name :: rest) (upwards : name ≠ "..")
    (reached : tree.reach above = .ok location)
    (blocked : tree.find? (location ++ [name]) = some (.file content)) :
    IsBarred root artifacts tree directory := by
  intro written _ same
  obtain ⟨moves, absolute'⟩ := Path.of_components_eq same
  exact Tree.makeDirectories_ne_ok_of_file (absolute.trans absolute'.symm) (moves.trans way)
    upwards reached blocked

theorem isNeeded_of_mem (member : directory ∈ directories root (keepLast artifacts)) :
    IsNeeded root artifacts directory := by
  obtain ⟨artifact, kept, holds⟩ := of_mem_directories member
  exact ⟨artifact, mem_keepLast_iff.mp kept, holds⟩

theorem IsNeeded.isTrimmed (needed : IsNeeded root artifacts directory) : directory.IsTrimmed := by
  obtain ⟨artifact, _, holds⟩ := needed
  exact Path.isTrimmed_of_parent? holds

/-- Where all directories are made, each of them can be made at the beginning. -/
theorem makeDirectories_of_makeAll (made : makeAll tree paths = (ready, .ok ()))
    (member : directory ∈ paths) (trimmed : directory.IsTrimmed) :
    ∃ next, tree.makeDirectories directory = (next, .ok ()) := by
  obtain ⟨grown, present⟩ := makeAll_spec tree paths
  rw [made] at grown present
  obtain ⟨next, done, _⟩ :=
    grown.toGrown.within.makeDirectories (present rfl directory member) trimmed
  exact ⟨next, done⟩

/-- A delivery has failed at a directory, before the first file. -/
structure Obstructed (root : Path) (artifacts : List Artifact) (tree after : Tree)
    (directory : Path) (fault : Fault) : Prop where
  /-- One file after the other or side by side, the delivery fails with the same tree. -/
  fails : deliver root artifacts tree = (after, .error (.write directory fault))
  fails_by : ∀ schedule, deliverBy schedule root artifacts tree = (after, none)
  needed : IsNeeded root artifacts directory
  /-- The named directory cannot be made at the beginning. -/
  barred : ∀ next, tree.makeDirectories directory ≠ (next, .ok ())
  /-- No file is made, changed or lost. -/
  grown : Grown tree after

theorem obstructed_of_makeAll
    (failed : makeAll tree (directories root (keepLast artifacts)) = (after, .error failure)) :
    ∃ directory fault, Obstructed root artifacts tree after directory fault := by
  obtain ⟨directory, member, middle, fault, grown, rest, stuck, rfl⟩ :=
    exists_of_makeAll_eq_error failed
  have needed := isNeeded_of_mem member
  refine ⟨directory, fault, ?_, fun schedule => ?_, needed, fun next made => ?_, grown.trans rest⟩
  · simp only [deliver, failed]
  · simp only [deliverBy, failed]
  · -- What can be made at the beginning could be made after the others.
    obtain ⟨last, done⟩ := grown.makeDirectories needed.isTrimmed made
    rw [done] at stuck
    simp at stuck

theorem exists_obstructed (needed : IsNeeded root artifacts directory)
    (barred : IsBarred root artifacts tree directory) :
    ∃ after named fault, Obstructed root artifacts tree after named fault := by
  rcases made : makeAll tree (directories root (keepLast artifacts)) with ⟨ready, failure | ⟨⟩⟩
  · exact ⟨ready, obstructed_of_makeAll made⟩
  · obtain ⟨artifact, last, holds⟩ := needed
    obtain ⟨listed, found, same⟩ := exists_mem_distinct
      (List.mem_filterMap.mpr ⟨artifact, mem_keepLast_iff.mpr last, holds⟩)
    have member : listed ∈ directories root (keepLast artifacts) := by
      rwa [directories, List.mem_mergeSort]
    have also := isNeeded_of_mem member
    obtain ⟨next, done⟩ := makeDirectories_of_makeAll made member also.isTrimmed
    exact absurd done (barred listed also same.symm next)

/-! ## Writing the files -/

/-- The tasks have kept the directories, and those that have failed could not write. -/
structure Steady (ready : Tree) (root : Path) (state : Progress) : Prop where
  keeps : KeepsDirectories ready state.tree
  refused : ∀ artifact failure, state.stage artifact = .failed failure →
    Refused ready root artifact failure

namespace Steady

variable {state : Progress} {stage : Stage}

theorem start (ready : Tree) (root : Path) : Steady ready root (Progress.start ready) where
  keeps := .refl ready
  refused artifact failure failed := by simp [Progress.start] at failed

theorem become (steady : Steady ready root state)
    (refused : ∀ failure, stage = .failed failure → Refused ready root artifact failure) :
    Steady ready root (state.become artifact stage) where
  keeps := steady.keeps
  refused other failure failed := by
    by_cases same : other = artifact
    · subst same
      rw [Progress.stage_become_self] at failed
      exact refused failure failed
    · rw [Progress.stage_become_of_ne same] at failed
      exact steady.refused other failure failed

/-- A step of any task keeps the directories, and a task that fails in it could not write. -/
theorem step (steady : Steady ready root state) (artifact : Artifact) :
    Steady ready root (state.step root artifact) := by
  cases stage : state.stage artifact with
  | waiting =>
      rw [Progress.step_of_waiting stage]
      exact steady.become (by simp)
  | checked existed =>
      rcases Progress.step_of_checked stage with ⟨after, done, stepped⟩ | ⟨fault, failed, stepped⟩
      · rw [stepped]
        obtain ⟨_, _, written⟩ := Tree.written_of_overwrite done
        have steady' : Steady ready root { state with tree := after } :=
          ⟨steady.keeps.trans written.keepsDirectories, steady.refused⟩
        exact steady'.become (by simp)
      · rw [stepped]
        refine steady.become fun failure same => ?_
        exact ⟨state.tree, fault, steady.keeps, failed, (Stage.failed.inj same).symm⟩
  | written existed => rwa [Progress.step_of_written stage]
  | failed failure => rwa [Progress.step_of_failed stage]

theorem run (steady : Steady ready root state) (schedule : List Artifact) :
    Steady ready root (state.run root schedule) := by
  induction schedule generalizing state with
  | nil => exact steady
  | cons artifact schedule ih => exact ih (steady.step artifact)

end Steady

/-- A write fails for another reason than that a directory is lacking, except at the empty
path and at a path whose last step is a full stop. -/
def FailsAtFile (root : Path) (artifact : Artifact) (failure : Failure) : Prop :=
  ∃ fault, failure = .write (root.join artifact.path) fault ∧
    (fault = .notFound ∨ fault = .notDirectory →
      root.join artifact.path = "" ∨ (root.join artifact.path).steps.getLast? = some ".")

theorem Refused.failsAtFile (refused : Refused ready root artifact failure)
    (made : makeAll tree (directories root (keepLast artifacts)) = (ready, .ok ()))
    (last : IsLast artifact artifacts) : FailsAtFile root artifact failure := by
  obtain ⟨later, fault, keeps, failed, rfl⟩ := refused
  refine ⟨fault, rfl, fun lack => ?_⟩
  have present := (makeAll_spec tree (directories root (keepLast artifacts))).2
  rw [made] at present
  have there (above : Path) (parent : (root.join artifact.path).parent? = some above) :
      ∃ location, later.reach above = .ok location := by
    obtain ⟨location, led⟩ :=
      reach_directoryOf (present rfl) (mem_keepLast_iff.mpr last) parent
    exact ⟨location, keeps.reach led⟩
  rcases Tree.fault_of_overwrite there failed with rfl | rfl | rfl | exception
  · simp at lack
  · simp at lack
  · simp at lack
  · exact exception

/-- All directories are made and no file is touched. What fails afterwards is a write, and not
for lack of a directory. -/
structure Prepared (root : Path) (artifacts : List Artifact) (tree ready : Tree) : Prop where
  grown : Grown tree ready
  reached : ∀ directory, IsNeeded root artifacts directory →
    ∃ location, ready.reach directory = .ok location
  fails : ∀ after failure, deliver root artifacts tree = (after, .error failure) →
    ∃ artifact, IsLast artifact artifacts ∧ FailsAtFile root artifact failure
  fails_by : ∀ schedule artifact failure, IsLast artifact artifacts →
    (ended schedule root (keepLast artifacts) ready).stage artifact = .failed failure →
      FailsAtFile root artifact failure

theorem prepared_of_makeAll
    (made : makeAll tree (directories root (keepLast artifacts)) = (ready, .ok ())) :
    Prepared root artifacts tree ready := by
  obtain ⟨grown, present⟩ := makeAll_spec tree (directories root (keepLast artifacts))
  rw [made] at grown present
  refine ⟨grown.toGrown, ?_, ?_, ?_⟩
  · rintro directory ⟨artifact, last, holds⟩
    exact reach_directoryOf (present rfl) (mem_keepLast_iff.mpr last) holds
  · intro after failure failed
    simp only [deliver, made] at failed
    rcases written : writeAll root ready (keepLast artifacts) with ⟨final, other | ⟨⟩⟩ <;>
      simp only [written] at failed
    · obtain ⟨artifact, kept, refused⟩ := refused_of_writeAll written
      obtain rfl := Except.error.inj (congrArg Prod.snd failed)
      have last := mem_keepLast_iff.mp kept
      exact ⟨artifact, last, refused.failsAtFile made last⟩
    · simp at failed
  · intro schedule artifact failure last failed
    have steady := (Steady.start ready root).run (schedule.filter (· ∈ keepLast artifacts))
    exact (steady.refused artifact failure failed).failsAtFile made last

/-- A delivery for which a directory cannot be made fails there and leaves every file as it
was. It fails so, or it makes all directories, and then no write fails for lack of one. -/
theorem deliver_directories (root : Path) (artifacts : List Artifact) (tree : Tree) :
    ((∃ directory, IsNeeded root artifacts directory ∧ IsBarred root artifacts tree directory) →
      ∃ after directory fault, Obstructed root artifacts tree after directory fault) ∧
    ((∃ after directory fault, Obstructed root artifacts tree after directory fault) ∨
      ∃ ready, makeAll tree (directories root (keepLast artifacts)) = (ready, .ok ())) ∧
    ∀ ready, makeAll tree (directories root (keepLast artifacts)) = (ready, .ok ()) →
      Prepared root artifacts tree ready := by
  refine ⟨?_, ?_, fun ready => prepared_of_makeAll⟩
  · rintro ⟨directory, needed, barred⟩
    exact exists_obstructed needed barred
  · rcases made : makeAll tree (directories root (keepLast artifacts)) with ⟨ready, failure | ⟨⟩⟩
    · exact .inl ⟨ready, obstructed_of_makeAll made⟩
    · exact .inr ⟨ready, rfl⟩

/-- The path of a file with a full stop behind its last name. -/
def fullStopPlan : List Artifact :=
  [⟨"b/.", "text"⟩]

/-- With all directories made, a write at an ordinary path may still ask for a directory that
is not there. -/
theorem exists_lacking_directory :
    ¬ ∀ (root : Path) (artifacts : List Artifact) (tree ready after : Tree) (failure : Failure),
      (∀ artifact ∈ artifacts, artifact.path.IsOrdinary) →
      makeAll tree (directories root (keepLast artifacts)) = (ready, .ok ()) →
      deliver root artifacts tree = (after, .error failure) →
      ∀ path, failure ≠ .write path .notFound := by
  intro never
  have ordinary : ∀ artifact ∈ fullStopPlan, artifact.path.IsOrdinary := by decide +kernel
  have made : makeAll sampleTree (directories "." (keepLast fullStopPlan)) =
      (sampleTree, .ok ()) := by
    have only : directories "." (keepLast fullStopPlan) = ["."] := by decide +kernel
    rw [only, makeAll_of_isPresent]
    exact List.forall_mem_singleton.mpr (.inr (by decide +kernel))
  have failed : deliver "." fullStopPlan sampleTree =
      (sampleTree, .error (.write "./b/." .notFound)) := by
    simp only [deliver, made]
    rfl
  exact never "." fullStopPlan sampleTree sampleTree sampleTree _ ordinary made failed "./b/." rfl

end Delivery

end AgentKit
