/-
# What a delivery does

A delivery that succeeds writes, for every planned path, the content of the last
artifact for it; apart from that it only adds directories on the way. Its result tells
for every kept artifact whether its file was there before. None of this depends on the
order in which the tasks take their steps, and the tree that a delivery leaves is one
that the same delivery leaves alone.

The paths of the artifacts are ordinary. The path of the root is not restricted: it may
lead upwards, begin at the top or be missing in the tree.
-/

import AgentKit.Proofs.Delivery.Interleaving
import AgentKit.Proofs.Delivery.Kept

namespace AgentKit.Delivery

open Files (Tree Location)
open Files.Tree (GrownAlong Grown IsPresent KeepsDirectories)

variable {root : Path} {artifacts schedule : List Artifact} {before ready after : Tree}
  {outcomes : List Delivered}

/-! ## The directories -/

/-- Making directories adds directories on the way to them. If it succeeds, all of them
are present. -/
theorem makeAll_spec (tree : Tree) (paths : List Path) :
    GrownAlong (paths.flatMap Path.ancestors) tree (makeAll tree paths).1 ∧
      ((makeAll tree paths).2 = .ok () →
        ∀ path ∈ paths, (makeAll tree paths).1.IsPresent path) := by
  induction paths generalizing tree with
  | nil => exact ⟨.refl _ _, by simp⟩
  | cons path paths ih =>
      rw [List.flatMap_cons]
      obtain ⟨grown, present⟩ := Tree.makeDirectories_spec tree path
      rcases made : tree.makeDirectories path with ⟨next, fault | ⟨⟩⟩ <;>
        rw [made] at grown present <;> rw [makeAll, made]
      · exact ⟨grown.mono (List.subset_append_left _ _), by simp⟩
      · obtain ⟨rest, others⟩ := ih next
        refine ⟨(grown.mono (List.subset_append_left _ _)).trans
          (rest.mono (List.subset_append_right _ _)), fun done other member => ?_⟩
        rcases List.mem_cons.mp member with rfl | inside
        · exact rest.keepsDirectories.isPresent (present rfl)
        · exact others done other inside

/-- Directories that are present need not be made. -/
theorem makeAll_of_isPresent {tree : Tree} {paths : List Path}
    (present : ∀ path ∈ paths, tree.IsPresent path) : makeAll tree paths = (tree, .ok ()) := by
  induction paths with
  | nil => rfl
  | cons path paths ih =>
      rw [makeAll, Tree.makeDirectories_of_isPresent (present path List.mem_cons_self)]
      exact ih fun other member => present other (List.mem_cons_of_mem _ member)

theorem distinct_subset (paths : List Path) : distinct paths ⊆ paths := by
  induction paths with
  | nil => exact List.Subset.refl _
  | cons path later ih =>
      rw [distinct]
      split
      · exact List.subset_cons_of_subset _ ih
      · exact List.cons_subset_cons _ ih

/-- Only the directories of artifacts are made. -/
theorem of_mem_directories {directory : Path} (member : directory ∈ directories root artifacts) :
    ∃ artifact ∈ artifacts, directoryOf root artifact = some directory := by
  rw [directories, List.mem_mergeSort] at member
  exact List.mem_filterMap.mp (distinct_subset _ member)

/-! ## The files -/

/-- Kept artifacts with ordinary paths are written to different places. -/
theorem apart_keepLast (ordinary : ∀ artifact ∈ artifacts, artifact.path.IsOrdinary)
    (ready : Tree) (root : Path) : Apart ready root (keepLast artifacts) := by
  intro first kept second also place leads leads'
  have plain := ordinary first ((keepLast_sublist artifacts).subset kept)
  have plain' := ordinary second ((keepLast_sublist artifacts).subset also)
  obtain ⟨base, reached, ends⟩ := Tree.of_target?_join plain leads
  obtain ⟨base', reached', ends'⟩ := Tree.of_target?_join plain' leads'
  obtain rfl : base = base' := by
    rw [reached] at reached'
    exact Except.ok.inj reached'
  have moves : first.path.moves = second.path.moves :=
    List.append_cancel_left (ends.symm.trans ends')
  exact eq_of_clash kept also (Path.same_iff.mp ((plain.same_iff plain').mpr moves))

/-- The files of artifacts are written into a tree, and nothing else is changed. -/
structure AllWritten (ready : Tree) (root : Path) (artifacts : List Artifact) (after : Tree) :
    Prop where
  keeps : KeepsDirectories ready after
  adds_none : KeepsDirectories after ready
  written : ∀ artifact ∈ artifacts, ∃ place,
    ready.target? (root.join artifact.path) = some place ∧
      ready.find? place ≠ some .directory ∧
      after.find? place = some (.file (.text artifact.content))
  untouched : ∀ location,
    (∀ artifact ∈ artifacts, ready.target? (root.join artifact.path) ≠ some location) →
      after.find? location = ready.find? location

theorem AllWritten.find?_of_target? (all : AllWritten ready root artifacts after)
    {artifact : Artifact} (member : artifact ∈ artifacts) {place : Location}
    (leads : ready.target? (root.join artifact.path) = some place) :
    after.find? place = some (.file (.text artifact.content)) := by
  obtain ⟨also, leads', _, found⟩ := all.written artifact member
  obtain rfl : place = also := by
    rw [leads] at leads'
    exact Option.some.inj leads'
  exact found

theorem AllWritten.isWritable (all : AllWritten ready root artifacts after) {artifact : Artifact}
    (member : artifact ∈ artifacts) : IsWritable ready root artifact := by
  obtain ⟨place, leads, free, _⟩ := all.written artifact member
  exact ⟨place, leads, free⟩

/-- What there is after the files were written is determined. -/
theorem AllWritten.alike {also : Tree} (all : AllWritten ready root artifacts after)
    (again : AllWritten ready root artifacts also) : Tree.Alike after also where
  current := again.keeps.current.trans all.keeps.current.symm
  found location := by
    by_cases planned : ∃ artifact ∈ artifacts,
        ready.target? (root.join artifact.path) = some location
    · obtain ⟨artifact, member, leads⟩ := planned
      rw [all.find?_of_target? member leads, again.find?_of_target? member leads]
    · have elsewhere (artifact : Artifact) (member : artifact ∈ artifacts) :
          ready.target? (root.join artifact.path) ≠ some location :=
        fun leads => planned ⟨artifact, member, leads⟩
      rw [all.untouched location elsewhere, again.untouched location elsewhere]

/-- Writing the files again changes nothing. -/
theorem AllWritten.alike_again {final : Tree} (all : AllWritten ready root artifacts after)
    (again : AllWritten after root artifacts final) : Tree.Alike after final where
  current := again.keeps.current
  found location := by
    by_cases planned : ∃ artifact ∈ artifacts,
        ready.target? (root.join artifact.path) = some location
    · obtain ⟨artifact, member, leads⟩ := planned
      rw [all.find?_of_target? member leads,
        again.find?_of_target? member (all.keeps.target? leads)]
    · refine again.untouched location fun artifact member leads => planned ?_
      exact ⟨artifact, member, all.adds_none.target? leads⟩

/-! ## Deliveries in any order -/

/-- A schedule gives every task the two steps that it needs. -/
def IsComplete (schedule artifacts : List Artifact) : Prop :=
  ∀ artifact ∈ keepLast artifacts, 2 ≤ schedule.count artifact

theorem fits_ended (ordinary : ∀ artifact ∈ artifacts, artifact.path.IsOrdinary) (ready : Tree)
    (root : Path) (schedule : List Artifact) :
    (ended schedule root (keepLast artifacts) ready).Fits ready root (keepLast artifacts) := by
  apply (Progress.fits_start ready root _).run (apart_keepLast ordinary ready root)
  intro artifact member
  simpa using (List.mem_filter.mp member).2

theorem allWritten_of_fits {state : Progress} (fits : Progress.Fits ready root artifacts state)
    (ended : ∀ artifact ∈ artifacts, ∃ existed, state.stage artifact = .written existed) :
    AllWritten ready root artifacts state.tree where
  keeps := fits.keeps
  adds_none := fits.adds_none
  written artifact member := by
    obtain ⟨existed, written⟩ := ended artifact member
    have known := fits.stages artifact member
    rw [written] at known
    obtain ⟨place, leads, free, found, _⟩ := known
    exact ⟨place, leads, free, found⟩
  untouched location elsewhere := by
    refine fits.untouched location ?_
    rintro ⟨artifact, member, _, _, leads⟩
    exact elsewhere artifact member leads

theorem deliverBy_eq_some_iff :
    deliverBy schedule root artifacts before = (after, some outcomes) ↔
      ∃ ready, makeAll before (directories root (keepLast artifacts)) = (ready, .ok ()) ∧
        (ended schedule root (keepLast artifacts) ready).tree = after ∧
        (keepLast artifacts).mapM (ended schedule root (keepLast artifacts) ready).delivered? =
          some outcomes := by
  simp only [deliverBy]
  rcases makeAll before (directories root (keepLast artifacts)) with ⟨ready, failure | ⟨⟩⟩
  · simp
  · simp

/-- A delivery that succeeds has made the directories and written every file. -/
theorem of_deliverBy (ordinary : ∀ artifact ∈ artifacts, artifact.path.IsOrdinary)
    (delivered : deliverBy schedule root artifacts before = (after, some outcomes)) :
    ∃ ready, makeAll before (directories root (keepLast artifacts)) = (ready, .ok ()) ∧
      AllWritten ready root (keepLast artifacts) after ∧
      outcomes = (keepLast artifacts).map (outcome root ready) := by
  obtain ⟨ready, made, rfl, collected⟩ := deliverBy_eq_some_iff.mp delivered
  have fits := fits_ended ordinary ready root schedule
  have done (artifact : Artifact) (member : artifact ∈ keepLast artifacts) :
      (∃ existed, (ended schedule root (keepLast artifacts) ready).stage artifact =
          .written existed) ∧
        (ended schedule root (keepLast artifacts) ready).delivered? artifact =
          some (outcome root ready artifact) := by
    obtain ⟨result, found⟩ := exists_of_mapM_eq_some collected member
    obtain ⟨written, rfl⟩ := (fits.delivered?_eq_some_iff member).mp found
    exact ⟨written, found⟩
  refine ⟨ready, made, allWritten_of_fits fits fun artifact member => (done artifact member).1, ?_⟩
  rw [mapM_eq_some_map fun artifact member => (done artifact member).2] at collected
  exact (Option.some.inj collected).symm

/-- A delivery of files that can be written succeeds with every complete schedule. -/
theorem deliverBy_of_isWritable (ordinary : ∀ artifact ∈ artifacts, artifact.path.IsOrdinary)
    (complete : IsComplete schedule artifacts)
    (made : makeAll before (directories root (keepLast artifacts)) = (ready, .ok ()))
    (writable : ∀ artifact ∈ keepLast artifacts, IsWritable ready root artifact) :
    ∃ after, deliverBy schedule root artifacts before =
      (after, some ((keepLast artifacts).map (outcome root ready))) := by
  have fits := fits_ended ordinary ready root schedule
  refine ⟨_, deliverBy_eq_some_iff.mpr ⟨ready, made, rfl, mapM_eq_some_map ?_⟩⟩
  intro artifact member
  have steps : (schedule.filter (· ∈ keepLast artifacts)).count artifact =
      schedule.count artifact := List.count_filter (by simpa using member)
  have old : Progress.age
      ((ended schedule root (keepLast artifacts) ready).stage artifact) = 2 := by
    rw [ended, Progress.age_run, steps]
    have enough := complete artifact member
    omega
  exact (fits.delivered?_eq_some_iff member).mpr
    ⟨fits.written_of_isWritable member old (writable artifact member), rfl⟩

/-- All tasks look first and write afterwards, in the order of the plan. -/
def inOrder (artifacts : List Artifact) : List Artifact :=
  keepLast artifacts ++ keepLast artifacts

theorem isComplete_inOrder (artifacts : List Artifact) :
    IsComplete (inOrder artifacts) artifacts := by
  intro artifact member
  have once := List.count_pos_iff.mpr member
  rw [inOrder, List.count_append]
  omega

/-- Tasks in the order of the plan do what writing one file after the other does. -/
theorem ended_inOrder {state : Progress}
    (last : state = ended (inOrder artifacts) root (keepLast artifacts) ready) :
    writeAll root ready (keepLast artifacts) = (state.tree, .ok ()) ∧
        (keepLast artifacts).mapM state.delivered? =
          some ((keepLast artifacts).map (outcome root ready)) ∨
      (∃ after failure, writeAll root ready (keepLast artifacts) = (after, .error failure)) ∧
        ∀ outcomes, (keepLast artifacts).mapM state.delivered? ≠ some outcomes := by
  have all : (inOrder artifacts).filter (· ∈ keepLast artifacts) = inOrder artifacts := by
    refine List.filter_eq_self.mpr fun artifact member => ?_
    simpa [inOrder] using member
  have distinct := keepLast_nodup artifacts
  obtain ⟨same, looked⟩ :=
    Progress.run_of_waiting root (Progress.start ready) distinct fun _ _ => rfl
  have second := Progress.run_of_checked root _ distinct looked
  rw [← Progress.run_append, ← inOrder, ← all, same, ← ended, ← last] at second
  refine second.imp (fun ⟨done, written⟩ => ⟨done, ?_⟩)
    (fun ⟨failed, artifact, member, failure, stuck⟩ => ⟨failed, fun outcomes collected => ?_⟩)
  · apply mapM_eq_some_map
    intro artifact member
    rw [Progress.delivered?, written artifact member]
    rfl
  · obtain ⟨result, found⟩ := exists_of_mapM_eq_some collected member
    rw [Progress.delivered?, stuck] at found
    contradiction

/-- Delivering one file after the other is one of the orders. -/
theorem deliver_eq_ok_iff :
    deliver root artifacts before = (after, .ok outcomes) ↔
      deliverBy (inOrder artifacts) root artifacts before = (after, some outcomes) := by
  simp only [deliver, deliverBy]
  rcases makeAll before (directories root (keepLast artifacts)) with ⟨ready, failure | ⟨⟩⟩
  · simp
  · rcases @ended_inOrder root artifacts ready _ rfl with ⟨done, collected⟩ | ⟨⟨_, _, failed⟩, missing⟩
    · simp [done, collected]
    · simp [failed, missing]

/-! ## What is left behind -/

/-- What a delivery below a root has done when it succeeds. -/
structure Completed (root : Path) (artifacts : List Artifact) (before after : Tree)
    (outcomes : List Delivered) : Prop where
  /-- Every planned path holds the content of the last artifact for it. -/
  holds : ∀ artifact, IsLast artifact artifacts →
    after.readText (root.join artifact.path) = .ok artifact.content ∧
      ∃ base, after.reach root = .ok base ∧
        after.find? (base ++ artifact.path.moves) = some (.file (.text artifact.content))
  /-- Everything else is as it was, except for new directories on the way to planned
  paths. -/
  unchanged : ∀ location,
    (∀ base, after.reach root = .ok base →
      ∀ artifact ∈ artifacts, location ≠ base ++ artifact.path.moves) →
    after.find? location = before.find? location ∨
      before.find? location = none ∧ after.find? location = some .directory ∧
        ∃ artifact ∈ artifacts, ∃ directory, directoryOf root artifact = some directory ∧
          ∃ above ∈ directory.ancestors, after.reach above = .ok location
  current : after.current = before.current
  /-- There is one result for every path, in the order of the plan. -/
  paths : ∃ kept : List Artifact, outcomes.map (·.path) = kept.map (·.path) ∧
    kept.Sublist artifacts ∧ (kept.Pairwise fun first second => ¬ Clash first second) ∧
      ∀ artifact, artifact ∈ kept ↔ IsLast artifact artifacts
  /-- A result tells whether the file was there. -/
  existed : ∀ result ∈ outcomes, ∀ base, after.reach root = .ok base →
    (result.existed = true ↔
      ∃ content, before.find? (base ++ result.path.moves) = some (.file content))

/-- The place of a kept artifact, seen from the directory of the root. -/
theorem AllWritten.of_mem {root : Path} (all : AllWritten ready root (keepLast artifacts) after)
    (ordinary : ∀ artifact ∈ artifacts, artifact.path.IsOrdinary) {artifact : Artifact}
    (kept : artifact ∈ keepLast artifacts) :
    ∃ base, after.reach root = .ok base ∧
      ready.target? (root.join artifact.path) = some (base ++ artifact.path.moves) ∧
      ready.find? (base ++ artifact.path.moves) ≠ some .directory ∧
      after.find? (base ++ artifact.path.moves) = some (.file (.text artifact.content)) := by
  obtain ⟨place, leads, free, found⟩ := all.written artifact kept
  have plain := ordinary artifact ((keepLast_sublist artifacts).subset kept)
  obtain ⟨base, reached, rfl⟩ := Tree.of_target?_join plain leads
  exact ⟨base, all.keeps.reach reached, leads, free, found⟩

theorem completed_of_allWritten (ordinary : ∀ artifact ∈ artifacts, artifact.path.IsOrdinary)
    (made : makeAll before (directories root (keepLast artifacts)) = (ready, .ok ()))
    (all : AllWritten ready root (keepLast artifacts) after) :
    Completed root artifacts before after ((keepLast artifacts).map (outcome root ready)) := by
  have grown := (makeAll_spec before (directories root (keepLast artifacts))).1
  rw [made] at grown
  constructor
  · intro artifact last
    have kept := mem_keepLast_iff.mpr last
    obtain ⟨base, reached, leads, _, found⟩ := all.of_mem ordinary kept
    exact ⟨Tree.readText_of_target? (all.keeps.target? leads) found, base, reached, found⟩
  · intro location elsewhere
    have unwritten : after.find? location = ready.find? location := by
      refine all.untouched location fun artifact kept leads => ?_
      obtain ⟨base, reached, leads', _⟩ := all.of_mem ordinary kept
      rw [leads] at leads'
      exact elsewhere base reached artifact ((keepLast_sublist artifacts).subset kept)
        (Option.some.inj leads')
    rw [unwritten]
    refine (grown.found location).imp id fun ⟨absent, made⟩ => ⟨absent, made, ?_⟩
    obtain ⟨above, member, reached⟩ := grown.along location absent made
    obtain ⟨directory, needed, way⟩ := List.mem_flatMap.mp member
    obtain ⟨artifact, kept, holds⟩ := of_mem_directories needed
    exact ⟨artifact, (keepLast_sublist artifacts).subset kept, directory, holds, above, way,
      all.keeps.reach reached⟩
  · exact all.keeps.current.trans grown.current
  · refine ⟨keepLast artifacts, by simp [outcome, Function.comp_def], keepLast_sublist artifacts,
      keepLast_pairwise artifacts, fun artifact => mem_keepLast_iff⟩
  · intro result member base reached
    obtain ⟨artifact, kept, rfl⟩ := List.mem_map.mp member
    obtain ⟨base', reached', leads, free, _⟩ := all.of_mem ordinary kept
    obtain rfl : base = base' := by
      rw [reached] at reached'
      exact Except.ok.inj reached'
    rw [outcome, Tree.isThere_of_target? leads, ← grown.toGrown.find?_of_not_directory free]
    rcases found : ready.find? (base ++ artifact.path.moves) with _ | _ | content
    · simp
    · exact absurd found free
    · simp

theorem completed_of_deliver (ordinary : ∀ artifact ∈ artifacts, artifact.path.IsOrdinary)
    (delivered : deliver root artifacts before = (after, .ok outcomes)) :
    Completed root artifacts before after outcomes := by
  obtain ⟨ready, made, all, rfl⟩ := of_deliverBy ordinary (deliver_eq_ok_iff.mp delivered)
  exact completed_of_allWritten ordinary made all

/-- The directories of a delivery are there, and every file that it writes is there,
with whatever content. -/
structure Repeatable (root : Path) (artifacts : List Artifact) (tree : Tree) : Prop where
  present : ∀ directory ∈ directories root (keepLast artifacts), tree.IsPresent directory
  files : ∀ artifact ∈ keepLast artifacts, ∃ place content,
    tree.target? (root.join artifact.path) = some place ∧ tree.find? place = some (.file content)

theorem repeatable_of_allWritten
    (made : makeAll before (directories root (keepLast artifacts)) = (ready, .ok ()))
    (all : AllWritten ready root (keepLast artifacts) after) : Repeatable root artifacts after where
  present directory member := by
    have present := (makeAll_spec before (directories root (keepLast artifacts))).2
    rw [made] at present
    exact all.keeps.isPresent (present rfl directory member)
  files artifact kept := by
    obtain ⟨place, leads, _, found⟩ := all.written artifact kept
    exact ⟨place, _, all.keeps.target? leads, found⟩

/-- A repeated delivery succeeds with every complete schedule. It finds every file, makes
no directory and writes the files. -/
theorem Repeatable.deliverBy {tree : Tree} (repeatable : Repeatable root artifacts tree)
    (ordinary : ∀ artifact ∈ artifacts, artifact.path.IsOrdinary)
    (complete : IsComplete schedule artifacts) :
    ∃ final, Delivery.deliverBy schedule root artifacts tree =
        (final, some ((keepLast artifacts).map fun artifact => ⟨artifact.path, true⟩)) ∧
      AllWritten tree root (keepLast artifacts) final := by
  have still : makeAll tree (directories root (keepLast artifacts)) = (tree, .ok ()) :=
    makeAll_of_isPresent repeatable.present
  have writable (artifact : Artifact) (kept : artifact ∈ keepLast artifacts) :
      IsWritable tree root artifact := by
    obtain ⟨place, content, leads, found⟩ := repeatable.files artifact kept
    exact ⟨place, leads, by simp [found]⟩
  obtain ⟨final, delivered⟩ := deliverBy_of_isWritable ordinary complete still writable
  obtain ⟨ready, made, again, _⟩ := of_deliverBy ordinary delivered
  obtain rfl : tree = ready := by
    rw [still] at made
    exact congrArg Prod.fst made
  refine ⟨final, ?_, again⟩
  rw [delivered]
  congr 2
  refine List.map_congr_left fun artifact kept => ?_
  obtain ⟨place, content, leads, found⟩ := repeatable.files artifact kept
  rw [outcome, Tree.isThere_of_target? leads, found]
  rfl

/-- A delivery that is repeated finds everything in place. -/
theorem again_of_allWritten (ordinary : ∀ artifact ∈ artifacts, artifact.path.IsOrdinary)
    (made : makeAll before (directories root (keepLast artifacts)) = (ready, .ok ()))
    (all : AllWritten ready root (keepLast artifacts) after)
    (complete : IsComplete schedule artifacts) :
    ∃ final, deliverBy schedule root artifacts after =
        (final, some ((keepLast artifacts).map fun artifact => ⟨artifact.path, true⟩)) ∧
      Tree.Alike after final := by
  obtain ⟨final, delivered, again⟩ :=
    (repeatable_of_allWritten made all).deliverBy ordinary complete
  exact ⟨final, delivered, all.alike_again again⟩

/-- A delivery of artifacts with ordinary paths that succeeds in any order of the steps
of its tasks has written the last artifact for every path and nothing else, and its
results tell which files were there before. Delivering one file after the other comes
to the same, and delivering again in any order finds every file and changes nothing. -/
theorem deliverBy_completed (ordinary : ∀ artifact ∈ artifacts, artifact.path.IsOrdinary)
    (delivered : deliverBy schedule root artifacts before = (after, some outcomes)) :
    Completed root artifacts before after outcomes ∧
      (∃ same, deliver root artifacts before = (same, .ok outcomes) ∧ Tree.Alike after same) ∧
      ∃ repeated, repeated.map (·.path) = outcomes.map (·.path) ∧
        (∀ result ∈ repeated, result.existed = true) ∧
        (∀ again, IsComplete again artifacts → ∃ final,
          deliverBy again root artifacts after = (final, some repeated) ∧
            Tree.Alike after final) ∧
        ∃ final, deliver root artifacts after = (final, .ok repeated) ∧
          Tree.Alike after final := by
  obtain ⟨ready, made, all, rfl⟩ := of_deliverBy ordinary delivered
  refine ⟨completed_of_allWritten ordinary made all, ?_,
    (keepLast artifacts).map fun artifact => ⟨artifact.path, true⟩, ?_, ?_, ?_, ?_⟩
  · obtain ⟨same, also⟩ := deliverBy_of_isWritable ordinary (isComplete_inOrder artifacts) made
      fun artifact => all.isWritable
    obtain ⟨ready', made', again, _⟩ := of_deliverBy ordinary also
    obtain rfl : ready = ready' := by
      rw [made] at made'
      exact congrArg Prod.fst made'
    exact ⟨same, deliver_eq_ok_iff.mpr also, all.alike again⟩
  · simp [outcome, Function.comp_def]
  · simp
  · exact fun again complete => again_of_allWritten ordinary made all complete
  · obtain ⟨final, also, alike⟩ :=
      again_of_allWritten ordinary made all (isComplete_inOrder artifacts)
    exact ⟨final, deliver_eq_ok_iff.mpr also, alike⟩

/-- A project with one file of documentation. -/
def sampleTree : Tree where
  entries :=
    [(["home"], .directory), (["home", "doc"], .directory),
     (["home", "doc", "out.md"], .file (.text "old"))]
  workingDirectory := ["home"]

/-- A plan with two artifacts for one path. -/
def samplePlan : List Artifact :=
  [⟨"doc/out.md", "first"⟩, ⟨"doc/other.md", "other"⟩, ⟨"doc/out.md", "second"⟩]

/-- One task takes both its steps between those of the other. -/
def sampleSchedule : List Artifact :=
  [⟨"doc/out.md", "second"⟩, ⟨"doc/other.md", "other"⟩, ⟨"doc/other.md", "other"⟩,
   ⟨"doc/out.md", "second"⟩]

theorem completed_sample :
    Completed "." samplePlan sampleTree (deliverBy sampleSchedule "." samplePlan sampleTree).1
      [⟨"doc/other.md", false⟩, ⟨"doc/out.md", true⟩] := by
  have delivered : (deliverBy sampleSchedule "." samplePlan sampleTree).2 =
      some [⟨"doc/other.md", false⟩, ⟨"doc/out.md", true⟩] := by decide +kernel
  have ordinary : ∀ artifact ∈ samplePlan, artifact.path.IsOrdinary := by decide +kernel
  exact (deliverBy_completed ordinary (Prod.ext rfl delivered)).1

end AgentKit.Delivery
