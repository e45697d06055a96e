/-
# Renewing an installation

A renewal reads the settings that the installation has kept and carries out the same job
again: the same targets, the language, and the rules and the profile of the user. What it
finds it finds as the installation has left it, so it writes what is there already and
changes nothing but the time in the settings.

That the settings are read back as they were kept is a hypothesis for the settings in
question. Nothing is assumed about what was in the tree before the installation.
-/

import AgentKit.Command.Renewal
import AgentKit.Proofs.Command.Job
import AgentKit.Proofs.Settings.Warnings

namespace AgentKit

open Files (Tree Location)
open Files.Tree (KeepsDirectories)
open Delivery (IsLast Leaves Repeatable)

/-- Settings that are read back as they were written. -/
def Settings.ReadsBack (settings : Settings) : Prop :=
  ofText settings.toText = .ok settings

/-- A renewal for which no language is chosen is in the recorded one. -/
theorem Renewal.locale_job (settings : Settings) (definitions : Option Path)
    (targets : List Target) :
    (Renewal.job ⟨none, definitions⟩ (some settings) targets).locale =
      settings.resolvedLocale := by
  simp only [Renewal.job, LoadOptions.localeWith]

namespace Job

variable {job : Job} {root : Path} {shared : Option String} {roster : Roster}
  {settings old : Settings} {before middle tree after : Tree} {time later : Timestamp}
  {installed : Installed}

/-- What a job needs that is carried out for the first time. -/
structure Basis (job : Job) (root : Path) (shared : Option String) (roster : Roster)
    (before : Tree) : Prop where
  steady : before.Steady root
  outside : ∀ path, job.loading.definitions = some path → IsOutside before root path
  rules : sharedRules job.rules job.profile = .ok shared
  loaded : (job.loading.request root job.locale shared).load before = .ok roster
  some_target : job.targets ≠ []

/-- What a job that is carried out leaves, and what renewals keep. -/
structure Settled (job : Job) (root : Path) (roster : Roster) (settings : Settings)
    (before tree : Tree) : Prop where
  /-- Nothing but outputs were written since before the installation. -/
  leaves : ∃ artifacts, (∀ artifact ∈ artifacts, IsOutput artifact) ∧ Leaves root artifacts before tree
  targets : ∀ target ∈ job.targets, Repeatable root (target.plan job.locale roster.agents) tree
  holds : ∀ artifact, IsLast artifact (planOf job.targets job.locale roster.agents) →
    ∃ base, tree.reach root = .ok base ∧
      tree.find? (base ++ artifact.path.moves) = some (.file (.text artifact.content))
  recorded : Repeatable root [settings.artifact] tree
  kept : ∃ base, tree.reach root = .ok base ∧
    tree.find? (base ++ Settings.file.moves) = some (.file (.text settings.toText))

theorem Basis.plain (basis : Basis job root shared roster before) :
    ∀ agent ∈ roster.agents, '/' ∉ agent.stem.toList :=
  fun _ => LoadRequest.slash_notMem_stem basis.loaded

/-! ## Recording -/

/-- No planned path begins the path of the settings. -/
theorem not_isPrefix_file (plain : ∀ agent ∈ roster.agents, '/' ∉ agent.stem.toList)
    {artifact : Artifact}
    (member : artifact ∈ planOf job.targets job.locale roster.agents) :
    ¬ artifact.path.moves <+: Settings.file.moves := by
  obtain ⟨target, _, planned⟩ := List.mem_flatMap.mp member
  obtain ⟨moving, neutral⟩ := Target.isNeutral_plan plain planned
  intro begins
  rw [Settings.moves_file] at begins
  cases moves : artifact.path.moves with
  | nil => exact moving moves
  | cons first others =>
      rw [moves, List.cons_prefix_cons] at begins
      exact (neutral first (by simp [moves])).1 begins.1

/-- Outputs that are written behind other outputs are outputs together with them. -/
theorem leaves_append_of_isOutput {earlier others : List Artifact}
    (leaves : Leaves root earlier before middle) (outputs : ∀ artifact ∈ earlier, IsOutput artifact)
    (next : Leaves root others middle after) (outputs' : ∀ artifact ∈ others, IsOutput artifact) :
    (∀ artifact ∈ earlier ++ others, IsOutput artifact) ∧
      Leaves root (earlier ++ others) before after := by
  have all : ∀ artifact ∈ earlier ++ others, IsOutput artifact :=
    List.forall_mem_append.mpr ⟨outputs, outputs'⟩
  exact ⟨all, leaves.trans (fun artifact member => isOrdinary_of_isOutput (all artifact member))
    next⟩

/-- A job is settled when it is recorded after its targets were installed. -/
theorem settled_of_recorded {artifacts : List Artifact} {outcomes : List Delivered}
    (plain : ∀ agent ∈ roster.agents, '/' ∉ agent.stem.toList) (steady : before.Steady root)
    (outputs : ∀ artifact ∈ artifacts, IsOutput artifact)
    (leaves : Leaves root artifacts before middle)
    (targets : ∀ target ∈ job.targets,
      Repeatable root (target.plan job.locale roster.agents) middle)
    (holds : ∀ artifact, IsLast artifact (planOf job.targets job.locale roster.agents) →
      ∃ base, middle.reach root = .ok base ∧
        middle.find? (base ++ artifact.path.moves) = some (.file (.text artifact.content)))
    (recorded : deliver root [settings.artifact] middle = (after, .ok outcomes)) :
    Settled job root roster settings before after := by
  have last := Delivery.leaves_of_deliver (steady.mono leaves.toKeepsDirectories)
    Settings.isOrdinary_artifact recorded
  constructor
  · exact ⟨_, leaves_append_of_isOutput leaves outputs last
      (List.forall_mem_singleton.mpr (.inl rfl))⟩
  · exact fun target member => (targets target member).mono last.within
  · intro artifact isLast
    obtain ⟨base, reached, found⟩ := holds artifact isLast
    have reached := last.toKeepsDirectories.reach reached
    refine ⟨base, reached, (last.find?_of_free reached fun other member => ?_).trans found⟩
    obtain ⟨earlier, later, whole, _⟩ := isLast
    have planned : artifact ∈ planOf job.targets job.locale roster.agents := by
      rw [whole]
      simp
    rw [List.mem_singleton.mp member]
    exact not_isPrefix_file plain planned
  · exact Delivery.repeatable_of_deliver Settings.isOrdinary_artifact recorded
  · exact last.holds settings.artifact ⟨[], [], rfl, by simp⟩

/-- A job that is carried out installs its targets and then keeps its settings, which replace
those that were there at the beginning. -/
theorem Basis.of_carryOut (basis : Basis job root shared roster before)
    {settings : Option Settings} (loaded : Settings.load before root = .ok settings)
    (done : job.carryOut root time shared before = (after, .ok installed)) :
    ∃ middle results outcomes,
      installAll roster.agents job.locale root before job.targets = (middle, .ok results) ∧
      deliver root [(job.stamp (settings.getD .default) time).artifact] middle =
        (after, .ok outcomes) ∧
      installed = ⟨job.locale, roster, results⟩ := by
  obtain ⟨also, middle, results, again, first, second, rfl⟩ := carryOut_eq_ok_iff.mp done
  obtain rfl : also = roster := Except.ok.inj (again.symm.trans basis.loaded)
  obtain ⟨settings', loaded', outcomes, recorded⟩ := record_eq_ok_iff.mp second
  have same := Settings.load_of_leaves (of_installAll basis.plain basis.steady first).1 basis.steady
    (toolkit_notMem_planOf _ _ basis.plain)
  obtain rfl : settings' = settings := by
    rw [same, loaded] at loaded'
    exact (Except.ok.inj loaded').symm
  exact ⟨middle, results, outcomes, first, recorded, rfl⟩

/-- A job that is carried out for the first time is settled. -/
theorem Basis.settled (basis : Basis job root shared roster before)
    {settings : Option Settings} (loaded : Settings.load before root = .ok settings)
    (done : job.carryOut root time shared before = (after, .ok installed)) :
    Settled job root roster (job.stamp (settings.getD .default) time) before after ∧
      installed.locale = job.locale ∧ installed.roster = roster ∧
      installed.targets.map (fun result => (result.1, result.2.map (·.path))) =
        (renewed job.targets job.locale roster.agents).map
          fun result => (result.1, result.2.map (·.path)) := by
  obtain ⟨middle, results, outcomes, first, recorded, rfl⟩ := basis.of_carryOut loaded done
  obtain ⟨leaves, targets, paths⟩ := of_installAll basis.plain basis.steady first
  refine ⟨settled_of_recorded basis.plain basis.steady (isOutput_planOf _ _ basis.plain) leaves
    targets leaves.holds recorded, rfl, rfl, ?_⟩
  rw [paths, renewed, List.map_map]
  simp [Function.comp_def]

/-! ## What is found again -/

namespace Settled

variable (settled : Settled job root roster settings before tree)

include settled

/-- The settings file lies below the root. -/
theorem target?_file : ∃ base, tree.reach root = .ok base ∧
    tree.target? (root.join Settings.file) = some (base ++ Settings.file.moves) ∧
    tree.find? (base ++ Settings.file.moves) = some (.file (.text settings.toText)) := by
  obtain ⟨base, reached, found⟩ := settled.kept
  obtain ⟨place, _, leads, _⟩ := settled.recorded.files settings.artifact
    (by rw [Delivery.keepLast_singleton]; exact List.mem_cons_self)
  obtain ⟨base', reached', rfl⟩ := Tree.of_target?_join Settings.isOrdinary_file leads
  rw [reached] at reached'
  obtain rfl := Except.ok.inj reached'
  exact ⟨base, reached, leads, found⟩

/-- The settings are loaded as they were kept. -/
theorem load (reads : settings.ReadsBack) : Settings.load tree root = .ok (some settings) := by
  obtain ⟨base, _, leads, found⟩ := settled.target?_file
  have there : tree.isThere (root.join Settings.file) := by
    rw [Tree.isThere_of_target? leads, found]
    rfl
  simp only [Settings.load, there, if_true, Tree.readText_of_target? leads found,
    show Settings.ofText settings.toText = .ok settings from reads]

/-- The root leads where it has led, whatever directories are made. -/
theorem reach_of_keeps (keeps : KeepsDirectories tree after) {base : Location}
    (reached : after.reach root = .ok base) : tree.reach root = .ok base := by
  obtain ⟨place, led, _⟩ := settled.kept
  have still := keeps.reach led
  rw [reached] at still
  rw [led, Except.ok.inj still]

theorem isDirectory_toolkit : tree.isDirectory (root.join toolkitDirectory) := by
  obtain ⟨base, _, leads, found⟩ := settled.target?_file
  have entry := Tree.entryAt_of_target? leads
  rw [found, ← Settings.join_toolkit, Tree.entryAt_join_eq_ok_iff (by decide)] at entry
  obtain ⟨flaw, _, location, led, _⟩ := entry
  have named := Path.join_ne_empty root (by decide) Settings.isOrdinary_toolkit.isAbsolute
  exact Tree.isDirectory_iff.mpr ⟨Tree.flaw?_of_join named (by decide) flaw, location, led⟩

end Settled

/-- The project of a settled job has the root that it had. -/
theorem Settled.resolve {given : Option Path}
    (settled : Settled job (ProjectRoot.resolve before given) roster settings before tree) :
    ProjectRoot.resolve tree given = ProjectRoot.resolve before given := by
  obtain ⟨artifacts, outputs, leaves⟩ := settled.leaves
  exact ProjectRoot.resolve_of_leaves leaves outputs settled.isDirectory_toolkit

/-! ## Renewing -/

theorem run_of_carryOut {result : Except Trouble Installed}
    (rules : sharedRules job.rules job.profile = .ok shared)
    (done : job.carryOut root time shared before = (after, result)) :
    job.run root time before =
      { tree := after, announced := [Phrase.loading.wording job.locale], result := result } := by
  simp only [run, rules, done]

/-- A job runs to its end if each of its steps succeeds. -/
theorem run_of_steps {results : List (Target × List Delivered)} {found : Option Settings}
    {outcomes : List Delivered} (rules : sharedRules job.rules job.profile = .ok shared)
    (loaded : (job.loading.request root job.locale shared).load before = .ok roster)
    (first : installAll roster.agents job.locale root before job.targets = (middle, .ok results))
    (again : Settings.load middle root = .ok found)
    (kept : deliver root [(job.stamp (found.getD .default) time).artifact] middle =
      (after, .ok outcomes)) :
    job.run root time before =
      { tree := after
        announced := [Phrase.loading.wording job.locale]
        result := .ok ⟨job.locale, roster, results⟩ } :=
  run_of_carryOut rules <| carryOut_eq_ok_iff.mpr ⟨roster, middle, results, loaded, first,
    record_eq_ok_iff.mpr ⟨found, again, outcomes, kept⟩, rfl⟩

theorem targets_stamp (job : Job) (old : Settings) (time : Timestamp) :
    (job.stamp old time).targets = job.targets :=
  Settings.targets_stamp _ _ _ _ _ _ _

theorem resolvedLocale_stamp (job : Job) (old : Settings) (time : Timestamp) :
    (job.stamp old time).resolvedLocale = job.locale :=
  Settings.resolvedLocale_stamp _ _ _ _ _ _ _

/-- The job of a renewal. -/
def again (job : Job) : Job :=
  { job with loading := ⟨none, job.loading.definitions⟩ }

/-- A renewal makes the job from the settings that the job has kept. -/
theorem renewal_job (job : Job) (old : Settings) (time : Timestamp) :
    Renewal.job ⟨none, job.loading.definitions⟩ (some (job.stamp old time)) job.targets =
      job.again := by
  have locale := resolvedLocale_stamp job old time
  simp only [Renewal.job, again, LoadOptions.localeWith, locale]
  rfl

/-- Only the time remains of an earlier stamp that a later one does not replace. -/
theorem stamp_again (job : Job) (old : Settings) (time later : Timestamp) :
    job.again.stamp (job.stamp old time) later = job.stamp old later := rfl

/-- Settings that are kept again where they are change nothing else. -/
theorem find?_of_recorded (leaves : Leaves root [settings.artifact] middle after)
    (adds_none : KeepsDirectories after middle) {location : Location}
    (elsewhere : ∀ base, after.reach root = .ok base → location ≠ base ++ Settings.file.moves) :
    after.find? location = middle.find? location := by
  rcases leaves.changes location with
    kept | ⟨base, reached, artifact, member, here | ⟨absent, new, _⟩⟩
  · exact kept
  · rw [List.mem_singleton.mp member] at here
    exact absurd here (elsewhere base reached)
  · rw [adds_none.directories location new] at absent
    contradiction

theorem Basis.load_again (basis : Basis job root shared roster before)
    (settled : Settled job root roster settings before tree) :
    (job.again.loading.request root job.locale shared).load tree = .ok roster := by
  obtain ⟨artifacts, outputs, leaves⟩ := settled.leaves
  have same : job.again.loading.request root job.locale shared =
      job.loading.request root job.locale shared := rfl
  rw [same]
  refine LoadRequest.load_of_leaves leaves outputs basis.steady rfl (fun path source => ?_)
    basis.loaded
  apply basis.outside
  have source : job.loading.source = .directory path := source
  unfold LoadOptions.source at source
  split at source
  · next definitions => rw [definitions, DefinitionSource.directory.inj source]
  · contradiction

/-- After the targets were installed again, the settings are kept again, with a new time. -/
theorem Settled.record_again
    (settled : Settled job root roster (job.stamp old time) before tree)
    (reads : (job.stamp old time).ReadsBack) (steady : tree.Steady root)
    (plain : ∀ agent ∈ roster.agents, '/' ∉ agent.stem.toList)
    (first : Leaves root (planOf job.targets job.locale roster.agents) tree middle)
    (later : Timestamp) :
    ∃ after outcomes, job.again.record root later middle = (after, .ok ()) ∧
      deliver root [(job.stamp old later).artifact] middle = (after, .ok outcomes) ∧
      Leaves root [(job.stamp old later).artifact] middle after ∧
      KeepsDirectories after middle := by
  have loaded : Settings.load middle root = .ok (some (job.stamp old time)) := by
    rw [Settings.load_of_leaves first steady (toolkit_notMem_planOf _ _ plain)]
    exact settled.load reads
  have repeatable :=
    Settings.repeatable_artifact (settled.recorded.mono first.within) (job.stamp old later)
  obtain ⟨after, recorded, last, adds_none⟩ :=
    repeatable.deliver (steady.mono first.toKeepsDirectories) Settings.isOrdinary_artifact
  refine ⟨after, _, ?_, recorded, last, adds_none⟩
  rw [record_eq_ok_iff]
  refine ⟨_, loaded, ?_⟩
  rw [Option.getD_some, stamp_again]
  exact ⟨_, recorded⟩

/-- When a settled job is carried out again, it finds every file, and only the time in
the settings is new. -/
theorem Basis.carryOut_again (basis : Basis job root shared roster before)
    (settled : Settled job root roster (job.stamp old time) before tree)
    (reads : (job.stamp old time).ReadsBack) (later : Timestamp) :
    ∃ after, job.again.carryOut root later shared tree =
        (after, .ok ⟨job.locale, roster, renewed job.targets job.locale roster.agents⟩) ∧
      Settled job root roster (job.stamp old later) before after ∧
      KeepsDirectories tree after ∧
      ∀ location, (∀ base, tree.reach root = .ok base → location ≠ base ++ Settings.file.moves) →
        after.find? location = tree.find? location := by
  obtain ⟨artifacts, outputs, leaves⟩ := settled.leaves
  have steady := basis.steady.mono leaves.toKeepsDirectories
  obtain ⟨middle, installed, adds_none⟩ :=
    installAll_of_repeatable basis.plain steady settled.targets
  obtain ⟨first, targets, _⟩ := of_installAll basis.plain steady installed
  have alike := first.alike_of_holds (isOrdinary_planOf _ _ basis.plain) adds_none settled.holds
  obtain ⟨after, outcomes, stored, recorded, last, adds_none'⟩ :=
    settled.record_again reads steady basis.plain first later
  have keeps := first.toKeepsDirectories.trans last.toKeepsDirectories
  refine ⟨after, carryOut_eq_ok_iff.mpr ⟨roster, middle, _, basis.load_again settled, installed,
    stored, rfl⟩, ?_, keeps, fun location elsewhere => ?_⟩
  · obtain ⟨all, whole⟩ :=
      leaves_append_of_isOutput leaves outputs first (isOutput_planOf _ _ basis.plain)
    exact settled_of_recorded basis.plain basis.steady all whole targets first.holds recorded
  · rw [← alike.found location]
    refine find?_of_recorded last adds_none' fun base reached => elsewhere base ?_
    exact settled.reach_of_keeps keeps reached

/-- A renewal that finds the settings of a job carries out the job again. -/
theorem run_renewal (loaded : Settings.load tree root = .ok (some (job.stamp old time)))
    (some_target : job.targets ≠ []) (rules : sharedRules job.rules job.profile = .ok shared)
    (done : job.again.carryOut root later shared tree = (after, .ok installed)) :
    (Renewal.run ⟨none, job.loading.definitions⟩ root later tree).tree = after ∧
      (Renewal.run ⟨none, job.loading.definitions⟩ root later tree).result =
        .ok (.renewed installed) := by
  obtain ⟨target, others, whole⟩ := List.exists_cons_of_ne_nil some_target
  have recorded : Renewal.targets (some (job.stamp old time)) root tree = target :: others := by
    simp only [Renewal.targets, Option.map_some, Option.getD_some, targets_stamp, whole]
  have again : sharedRules job.again.rules job.again.profile = .ok shared := rules
  simp only [Renewal.run, loadSettings_eq_ok_iff.mpr loaded, recorded]
  rw [← whole, renewal_job, Renewal.runJob, run_of_carryOut again done]
  exact ⟨rfl, rfl⟩

end Job

end AgentKit
