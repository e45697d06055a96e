/-
# Writing files side by side

The files of a delivery may be written side by side, by one task for every kept
artifact. A task first finds out whether there is anything at its path and then writes
its file; between the two, other tasks take steps of their own. A schedule lists the
tasks in the order in which they take their steps.

The invariant compares the tree with the one in which the tasks began: a place holds
what a finished task has written or what was there, and every task that has looked
knows what was there at the beginning. It relies on the tasks writing to different
places. Whether a task succeeds is decided at the beginning as well, so it does not
depend on the schedule.

A file that is seen half written is not described.
-/

import AgentKit.Delivery
import AgentKit.Proofs.Files.Change
import Mathlib.Logic.Function.Basic

namespace AgentKit.Delivery

open Files (Tree Location)
open Files.Tree (KeepsDirectories)

/-- How far the task of an artifact has come. -/
inductive Stage where
  | waiting
  | checked (existed : Bool)
  | written (existed : Bool)
  | failed (failure : Failure)

/-- The state of a delivery whose files are being written. -/
structure Progress where
  tree : Tree
  stage : Artifact → Stage

namespace Progress

/-- No task has taken a step. -/
def start (tree : Tree) : Progress where
  tree := tree
  stage _ := .waiting

/-- The task of an artifact comes to a stage. -/
def become (state : Progress) (artifact : Artifact) (stage : Stage) : Progress :=
  { state with stage := Function.update state.stage artifact stage }

/-- A task takes its next step, if there is one. -/
def step (root : Path) (state : Progress) (artifact : Artifact) : Progress :=
  let path := Path.join root artifact.path
  match state.stage artifact with
  | .waiting => state.become artifact (.checked (state.tree.isThere path))
  | .checked existed =>
    match state.tree.overwrite path (.text artifact.content) with
    | (tree, .ok ()) => { state with tree }.become artifact (.written existed)
    | (tree, .error fault) => { state with tree }.become artifact (.failed (.write path fault))
  | .written _ | .failed _ => state

/-- The tasks of a schedule take their steps. -/
def run (root : Path) (state : Progress) (schedule : List Artifact) : Progress :=
  schedule.foldl (step root) state

/-- What became of an artifact, if its task has written the file. -/
def delivered? (state : Progress) (artifact : Artifact) : Option Delivered :=
  match state.stage artifact with
  | .written existed => some ⟨artifact.path, existed⟩
  | .waiting | .checked _ | .failed _ => none

end Progress

/-- The state in which a schedule leaves the tasks of the kept artifacts. -/
def ended (schedule : List Artifact) (root : Path) (kept : List Artifact) (ready : Tree) :
    Progress :=
  (Progress.start ready).run root (schedule.filter (· ∈ kept))

/-- Deliver artifacts below a root with the tasks of the kept artifacts in the order of
a schedule. There is a result if all of them have written their files at its end. -/
def deliverBy (schedule : List Artifact) (root : Path) (artifacts : List Artifact) (tree : Tree) :
    Tree × Option (List Delivered) :=
  let kept := keepLast artifacts
  match makeAll tree (directories root kept) with
  | (tree, .error _) => (tree, none)
  | (tree, .ok ()) =>
    let state := ended schedule root kept tree
    (state.tree, kept.mapM state.delivered?)

/-- The place of an artifact is there for a file. -/
def IsWritable (ready : Tree) (root : Path) (artifact : Artifact) : Prop :=
  ∃ place, ready.target? (root.join artifact.path) = some place ∧
    ready.find? place ≠ some .directory

/-- No two artifacts are written to one place. -/
def Apart (ready : Tree) (root : Path) (artifacts : List Artifact) : Prop :=
  ∀ first ∈ artifacts, ∀ second ∈ artifacts, ∀ place,
    ready.target? (root.join first.path) = some place →
      ready.target? (root.join second.path) = some place → first = second

namespace Progress

variable {ready after : Tree} {root : Path} {artifacts schedule : List Artifact}
  {artifact other : Artifact} {state : Progress} {place location : Location} {existed : Bool}

/-! ## The invariant of a run -/

/-- What a task knows and has done, in terms of the tree in which the tasks began. -/
def StageFits (ready : Tree) (root : Path) (tree : Tree) (artifact : Artifact) : Stage → Prop
  | .waiting => True
  | .checked existed =>
    ∀ place, ready.target? (root.join artifact.path) = some place →
      existed = (ready.find? place).isSome
  | .written existed =>
    ∃ place, ready.target? (root.join artifact.path) = some place ∧
      ready.find? place ≠ some .directory ∧
      tree.find? place = some (.file (.text artifact.content)) ∧
      existed = (ready.find? place).isSome
  | .failed _ => ¬ IsWritable ready root artifact

/-- A place at which a task has written its file. -/
def IsOutput (ready : Tree) (root : Path) (artifacts : List Artifact) (state : Progress)
    (location : Location) : Prop :=
  ∃ artifact ∈ artifacts, ∃ existed, state.stage artifact = .written existed ∧
    ready.target? (root.join artifact.path) = some location

/-- The tree and the stages of all tasks fit the tree in which the tasks began. -/
structure Fits (ready : Tree) (root : Path) (artifacts : List Artifact) (state : Progress) :
    Prop where
  keeps : KeepsDirectories ready state.tree
  adds_none : KeepsDirectories state.tree ready
  stages : ∀ artifact ∈ artifacts, StageFits ready root state.tree artifact (state.stage artifact)
  untouched : ∀ location, ¬ IsOutput ready root artifacts state location →
    state.tree.find? location = ready.find? location

theorem fits_start (ready : Tree) (root : Path) (artifacts : List Artifact) :
    Fits ready root artifacts (start ready) where
  keeps := .refl ready
  adds_none := .refl ready
  stages _ _ := trivial
  untouched _ _ := rfl

@[simp]
theorem tree_become (state : Progress) (artifact : Artifact) (stage : Stage) :
    (state.become artifact stage).tree = state.tree := rfl

@[simp]
theorem stage_become_self (state : Progress) (artifact : Artifact) (stage : Stage) :
    (state.become artifact stage).stage artifact = stage :=
  Function.update_self ..

theorem stage_become_of_ne {stage : Stage} (different : other ≠ artifact) :
    (state.become artifact stage).stage other = state.stage other :=
  Function.update_of_ne different ..

theorem step_of_waiting (waiting : state.stage artifact = .waiting) :
    state.step root artifact =
      state.become artifact (.checked (state.tree.isThere (root.join artifact.path))) := by
  simp only [step, waiting]

theorem step_of_checked (checked : state.stage artifact = .checked existed) :
    (∃ after, state.tree.overwrite (root.join artifact.path) (.text artifact.content) =
        (after, .ok ()) ∧
      state.step root artifact = { state with tree := after }.become artifact (.written existed)) ∨
    ∃ fault, state.tree.overwrite (root.join artifact.path) (.text artifact.content) =
        (state.tree, .error fault) ∧
      state.step root artifact =
        state.become artifact (.failed (.write (root.join artifact.path) fault)) := by
  rcases written : state.tree.overwrite (root.join artifact.path) (.text artifact.content)
    with ⟨after, fault | ⟨⟩⟩
  · obtain rfl := Tree.eq_of_overwrite_eq_error written
    exact .inr ⟨fault, rfl, by simp only [step, checked, written]⟩
  · exact .inl ⟨after, rfl, by simp only [step, checked, written]⟩

theorem step_of_written (written : state.stage artifact = .written existed) :
    state.step root artifact = state := by
  simp only [step, written]

theorem step_of_failed {failure : Failure} (failed : state.stage artifact = .failed failure) :
    state.step root artifact = state := by
  simp only [step, failed]

/-- A step of a task leaves the other tasks where they are. -/
theorem stage_step_of_ne (state : Progress) (different : other ≠ artifact) :
    (state.step root artifact).stage other = state.stage other := by
  cases stage : state.stage artifact with
  | waiting => rw [step_of_waiting stage, stage_become_of_ne different]
  | checked existed =>
      rcases step_of_checked stage with ⟨_, _, stepped⟩ | ⟨_, _, stepped⟩ <;>
        rw [stepped, stage_become_of_ne different]
  | written existed => rw [step_of_written stage]
  | failed failure => rw [step_of_failed stage]

/-- The output of other tasks stays output. -/
theorem IsOutput.become {stage : Stage} (output : IsOutput ready root artifacts state location)
    (unwritten : ∀ existed, state.stage artifact ≠ .written existed) :
    IsOutput ready root artifacts (state.become artifact stage) location := by
  obtain ⟨writer, member, existed, written, leads⟩ := output
  have different : writer ≠ artifact := by
    rintro rfl
    exact unwritten existed written
  exact ⟨writer, member, existed, by rw [stage_become_of_ne different, written], leads⟩

/-- A task may come to any stage that fits, as long as the tree stays the same. -/
theorem Fits.become {stage : Stage} (fits : Fits ready root artifacts state)
    (unwritten : ∀ existed, state.stage artifact ≠ .written existed)
    (suits : StageFits ready root state.tree artifact stage) :
    Fits ready root artifacts (state.become artifact stage) where
  keeps := fits.keeps
  adds_none := fits.adds_none
  stages other member := by
    by_cases same : other = artifact
    · subst same
      rwa [stage_become_self]
    · rw [stage_become_of_ne same]
      exact fits.stages other member
  untouched location no_output :=
    fits.untouched location fun output => no_output (output.become unwritten)

/-- What a task sees is what was there when the tasks began: no other task writes to
its place. -/
theorem Fits.stageFits_checked (fits : Fits ready root artifacts state)
    (apart : Apart ready root artifacts) (member : artifact ∈ artifacts)
    (unwritten : ∀ existed, state.stage artifact ≠ .written existed) :
    StageFits ready root state.tree artifact
      (.checked (state.tree.isThere (root.join artifact.path))) := by
  intro place leads
  have no_output : ¬ IsOutput ready root artifacts state place := by
    rintro ⟨writer, inside, existed, written, also⟩
    obtain rfl := apart writer inside artifact member place also leads
    exact unwritten existed written
  rw [Tree.isThere_of_target? (fits.keeps.target? leads), fits.untouched place no_output]

/-- A task whose file cannot be written could not have written it at the beginning. -/
theorem Fits.not_isWritable (fits : Fits ready root artifacts state) {fault : Files.Fault}
    (failed : state.tree.overwrite (root.join artifact.path) (.text artifact.content) =
      (state.tree, .error fault)) : ¬ IsWritable ready root artifact := by
  rintro ⟨place, leads, free⟩
  have here : state.tree.find? place ≠ some .directory :=
    fun found => free (fits.adds_none.directories place found)
  rw [Tree.overwrite_eq_ok_iff.mpr ⟨place, fits.keeps.target? leads, here, rfl⟩] at failed
  simp at failed

/-- A file that a task writes is the only thing that changes. -/
theorem Fits.written (fits : Fits ready root artifacts state)
    (apart : Apart ready root artifacts) (member : artifact ∈ artifacts)
    (checked : state.stage artifact = .checked existed)
    (done : state.tree.overwrite (root.join artifact.path) (.text artifact.content) =
      (after, .ok ())) :
    Fits ready root artifacts
      ({ state with tree := after }.become artifact (.written existed)) := by
  have known := fits.stages artifact member
  rw [checked] at known
  obtain ⟨place, leads, written⟩ := Tree.written_of_overwrite done
  have target := fits.adds_none.target? leads
  have free : ready.find? place ≠ some .directory :=
    fun found => written.free (fits.keeps.directories place found)
  have unwritten (existed : Bool) : state.stage artifact ≠ .written existed := by simp [checked]
  constructor
  · exact fits.keeps.trans written.keepsDirectories
  · exact written.keepsDirectories_symm.trans fits.adds_none
  · intro other also
    by_cases same : other = artifact
    · subst same
      rw [stage_become_self]
      exact ⟨place, target, free, by simp [written.found], known place target⟩
    · rw [stage_become_of_ne same]
      have old := fits.stages other also
      -- Only what a finished task has written could be lost.
      rcases stage : state.stage other with _ | seen | seen | failure <;> simp only [stage] at old ⊢
      · exact old
      · exact old
      · obtain ⟨elsewhere, leads', free', found, existed⟩ := old
        have different : elsewhere ≠ place := by
          rintro rfl
          exact same (apart other also artifact member elsewhere leads' target)
        exact ⟨elsewhere, leads', free', by simp [written.found, different, found], existed⟩
      · exact old
  · intro location no_output
    have different : location ≠ place := by
      rintro rfl
      exact no_output ⟨artifact, member, existed, stage_become_self .., target⟩
    rw [tree_become, written.found, if_neg different]
    exact fits.untouched location fun output => no_output (output.become unwritten)

/-- A step of any task keeps the invariant. -/
theorem Fits.step (fits : Fits ready root artifacts state) (apart : Apart ready root artifacts)
    (member : artifact ∈ artifacts) : Fits ready root artifacts (state.step root artifact) := by
  cases stage : state.stage artifact with
  | waiting =>
      rw [step_of_waiting stage]
      exact fits.become (by simp [stage]) (fits.stageFits_checked apart member (by simp [stage]))
  | checked existed =>
      rcases step_of_checked stage with ⟨after, done, stepped⟩ | ⟨fault, failed, stepped⟩
      · rw [stepped]
        exact fits.written apart member stage done
      · rw [stepped]
        exact fits.become (by simp [stage]) (fits.not_isWritable failed)
  | written existed => rwa [step_of_written stage]
  | failed failure => rwa [step_of_failed stage]

/-- The tasks keep the invariant in every order of their steps. -/
theorem Fits.run (fits : Fits ready root artifacts state) (apart : Apart ready root artifacts)
    (members : ∀ artifact ∈ schedule, artifact ∈ artifacts) :
    Fits ready root artifacts (state.run root schedule) := by
  induction schedule generalizing state with
  | nil => exact fits
  | cons artifact schedule ih =>
      have first := fits.step apart (members artifact List.mem_cons_self)
      exact ih first fun other member => members other (List.mem_cons_of_mem _ member)

/-! ## Tasks that have taken their steps -/

/-- The number of steps that a task at a stage has taken. -/
def age : Stage → Nat
  | .waiting => 0
  | .checked _ => 1
  | .written _ | .failed _ => 2

theorem age_le_two (stage : Stage) : age stage ≤ 2 := by
  cases stage <;> simp [age]

theorem age_step_self (state : Progress) (artifact : Artifact) :
    age ((state.step root artifact).stage artifact) =
      min 2 (age (state.stage artifact) + 1) := by
  cases stage : state.stage artifact with
  | waiting => rw [step_of_waiting stage, stage_become_self]; rfl
  | checked existed =>
      rcases step_of_checked stage with ⟨_, _, stepped⟩ | ⟨_, _, stepped⟩ <;>
        rw [stepped, stage_become_self] <;> rfl
  | written existed => rw [step_of_written stage, stage]; rfl
  | failed failure => rw [step_of_failed stage, stage]; rfl

/-- A task has taken as many steps as the schedule gives it, until it has ended. -/
theorem age_run (state : Progress) (schedule : List Artifact) (artifact : Artifact) :
    age ((state.run root schedule).stage artifact) =
      min 2 (age (state.stage artifact) + schedule.count artifact) := by
  induction schedule generalizing state with
  | nil => exact (Nat.min_eq_right (age_le_two _)).symm
  | cons first schedule ih =>
      rw [run, List.foldl_cons, ← run, ih]
      by_cases same : artifact = first
      · subst same
        rw [age_step_self, List.count_cons_self]
        omega
      · rw [stage_step_of_ne state same, List.count_cons_of_ne (Ne.symm same)]

/-- The result of a task that has written its file tells whether there was anything at
the beginning. -/
theorem Fits.delivered?_eq_some_iff (fits : Fits ready root artifacts state)
    (member : artifact ∈ artifacts) {delivered : Delivered} :
    state.delivered? artifact = some delivered ↔
      (∃ existed, state.stage artifact = .written existed) ∧
        delivered = outcome root ready artifact := by
  have known := fits.stages artifact member
  rw [delivered?]
  cases stage : state.stage artifact with
  | waiting => simp
  | checked existed => simp
  | written existed =>
      rw [stage] at known
      obtain ⟨place, leads, _, _, rfl⟩ := known
      simp [outcome, Tree.isThere_of_target? leads, eq_comm]
  | failed failure => simp

/-- Tasks that may take two steps write all files that can be written. -/
theorem Fits.written_of_isWritable (fits : Fits ready root artifacts state)
    (member : artifact ∈ artifacts) (ended : age (state.stage artifact) = 2)
    (writable : IsWritable ready root artifact) :
    ∃ existed, state.stage artifact = .written existed := by
  have known := fits.stages artifact member
  cases stage : state.stage artifact with
  | waiting => simp [stage, age] at ended
  | checked existed => simp [stage, age] at ended
  | written existed => exact ⟨existed, rfl⟩
  | failed failure =>
      rw [stage] at known
      exact absurd writable known

/-! ## One task after the other -/

theorem run_cons (state : Progress) (artifact : Artifact) (schedule : List Artifact) :
    state.run root (artifact :: schedule) = (state.step root artifact).run root schedule := rfl

theorem run_append (state : Progress) (first second : List Artifact) :
    state.run root (first ++ second) = (state.run root first).run root second :=
  List.foldl_append

theorem stage_run_of_notMem (state : Progress) (absent : artifact ∉ schedule) :
    (state.run root schedule).stage artifact = state.stage artifact := by
  induction schedule generalizing state with
  | nil => rfl
  | cons first schedule ih =>
      rw [List.mem_cons, not_or] at absent
      rw [run_cons, ih _ absent.2, stage_step_of_ne state absent.1]

/-- When all tasks take their first steps, they all look at the same tree. -/
theorem run_of_waiting (root : Path) (state : Progress) (distinct : artifacts.Nodup)
    (waiting : ∀ artifact ∈ artifacts, state.stage artifact = .waiting) :
    (state.run root artifacts).tree = state.tree ∧
      ∀ artifact ∈ artifacts, (state.run root artifacts).stage artifact =
        .checked (state.tree.isThere (root.join artifact.path)) := by
  induction artifacts generalizing state with
  | nil => simp [run]
  | cons first others ih =>
      rw [List.nodup_cons] at distinct
      have stepped := @step_of_waiting root first state (waiting first List.mem_cons_self)
      have still (other : Artifact) (member : other ∈ others) :
          (state.step root first).stage other = .waiting := by
        have different : other ≠ first := fun same => distinct.1 (same ▸ member)
        rw [stage_step_of_ne state different, waiting other (List.mem_cons_of_mem _ member)]
      obtain ⟨tree, stages⟩ := ih (state.step root first) distinct.2 still
      have same_tree : (state.step root first).tree = state.tree := by rw [stepped, tree_become]
      rw [same_tree] at tree stages
      refine ⟨tree, fun artifact member => ?_⟩
      rcases List.mem_cons.mp member with rfl | inside
      · rw [run_cons, stage_run_of_notMem _ distinct.1, stepped, stage_become_self]
      · exact stages artifact inside

theorem writeAll_of_ok {tree : Tree}
    (done : tree.overwrite (root.join artifact.path) (.text artifact.content) = (after, .ok ()))
    (others : List Artifact) :
    writeAll root tree (artifact :: others) = writeAll root after others := by
  change (match tree.overwrite (root.join artifact.path) (.text artifact.content) with
    | (tree, .ok ()) => writeAll root tree others
    | (tree, .error fault) => (tree, .error (.write (root.join artifact.path) fault))) = _
  rw [done]

theorem writeAll_of_error {tree : Tree} {fault : Files.Fault}
    (failed : tree.overwrite (root.join artifact.path) (.text artifact.content) =
      (after, .error fault)) (others : List Artifact) :
    writeAll root tree (artifact :: others) =
      (after, .error (.write (root.join artifact.path) fault)) := by
  change (match tree.overwrite (root.join artifact.path) (.text artifact.content) with
    | (tree, .ok ()) => writeAll root tree others
    | (tree, .error fault) => (tree, .error (.write (root.join artifact.path) fault))) = _
  rw [failed]

/-- When all tasks take their second steps in the order of a list, they do what writing
the files of the list does, up to the first that cannot be written. -/
theorem run_of_checked (root : Path) (state : Progress) {seen : Artifact → Bool} (distinct : artifacts.Nodup)
    (checked : ∀ artifact ∈ artifacts, state.stage artifact = .checked (seen artifact)) :
    writeAll root state.tree artifacts = ((state.run root artifacts).tree, .ok ()) ∧
        (∀ artifact ∈ artifacts,
          (state.run root artifacts).stage artifact = .written (seen artifact)) ∨
      (∃ after failure, writeAll root state.tree artifacts = (after, .error failure)) ∧
        ∃ artifact ∈ artifacts, ∃ failure,
          (state.run root artifacts).stage artifact = .failed failure := by
  induction artifacts generalizing state with
  | nil => exact .inl ⟨rfl, by simp⟩
  | cons first others ih =>
      rw [List.nodup_cons] at distinct
      have still (other : Artifact) (member : other ∈ others) :
          (state.step root first).stage other = .checked (seen other) := by
        have different : other ≠ first := fun same => distinct.1 (same ▸ member)
        rw [stage_step_of_ne state different, checked other (List.mem_cons_of_mem _ member)]
      have final := @stage_run_of_notMem root others first (state.step root first) distinct.1
      rcases @step_of_checked root first state _ (checked first List.mem_cons_self) with
        ⟨after, done, stepped⟩ | ⟨fault, failed, stepped⟩
      · have rest : writeAll root state.tree (first :: others) =
            writeAll root (state.step root first).tree others := by
          rw [writeAll_of_ok done, stepped, tree_become]
        rw [rest, run_cons]
        refine (ih (state.step root first) distinct.2 still).imp (fun ⟨done, written⟩ => ?_)
          (fun ⟨failed, artifact, member, failure⟩ => ?_)
        · refine ⟨done, fun artifact member => ?_⟩
          rcases List.mem_cons.mp member with rfl | inside
          · rw [final, stepped, stage_become_self]
          · exact written artifact inside
        · exact ⟨failed, artifact, List.mem_cons_of_mem _ member, failure⟩
      · right
        refine ⟨⟨state.tree, .write (root.join first.path) fault, writeAll_of_error failed others⟩,
          first, List.mem_cons_self, .write (root.join first.path) fault, ?_⟩
        rw [run_cons, final, stepped, stage_become_self]

end Progress

/-! ## Collecting results -/

section Collecting

variable {α β : Type} {results : α → Option β} {items : List α}

theorem mapM_eq_some_map {known : α → β}
    (exist : ∀ item ∈ items, results item = some (known item)) :
    items.mapM results = some (items.map known) := by
  induction items with
  | nil => rfl
  | cons first others ih =>
      rw [List.mapM_cons, exist first List.mem_cons_self,
        ih fun item member => exist item (List.mem_cons_of_mem _ member)]
      rfl

theorem exists_of_mapM_eq_some {collected : List β} (collects : items.mapM results = some collected)
    {item : α} (member : item ∈ items) : ∃ result, results item = some result := by
  induction items generalizing collected with
  | nil => cases member
  | cons first others ih =>
      simp only [List.mapM_cons, Option.pure_def, Option.bind_eq_bind,
        Option.bind_eq_some_iff] at collects
      obtain ⟨result, found, rest, collects, _⟩ := collects
      rcases List.mem_cons.mp member with rfl | inside
      · exact ⟨result, found⟩
      · exact ih collects inside

end Collecting

end AgentKit.Delivery
