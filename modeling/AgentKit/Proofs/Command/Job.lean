/-
# What carrying out a job leaves

Installing targets one after the other leaves what the delivery of all their plans, one
behind the other, leaves; recording the job delivers the settings. So all that a job
writes is one list of artifacts, and a job whose files are all there can be carried out
again.
-/

import AgentKit.Command.Job
import AgentKit.Proofs.Command.Undisturbed

namespace AgentKit

open Files (Tree)
open Files.Tree (KeepsDirectories)
open Delivery (Leaves Repeatable Touches keepLast)

variable {agents : List Agent} {locale : Locale} {root : Path} {before after : Tree}
  {targets : List Target} {results : List (Target × List Delivered)}

/-- The artifacts of targets, in the order in which they are installed. -/
def planOf (targets : List Target) (locale : Locale) (agents : List Agent) : List Artifact :=
  targets.flatMap fun target => target.plan locale agents

theorem planOf_cons (target : Target) (targets : List Target) (locale : Locale)
    (agents : List Agent) :
    planOf (target :: targets) locale agents =
      target.plan locale agents ++ planOf targets locale agents :=
  List.flatMap_cons

theorem isOutput_planOf (targets : List Target) (locale : Locale)
    (plain : ∀ agent ∈ agents, '/' ∉ agent.stem.toList) :
    ∀ artifact ∈ planOf targets locale agents, IsOutput artifact := by
  intro artifact member
  obtain ⟨target, _, inside⟩ := List.mem_flatMap.mp member
  exact .inr ⟨target.isOrdinary_plan locale plain artifact inside,
    Target.isNeutral_plan plain inside⟩

theorem isOrdinary_planOf (targets : List Target) (locale : Locale)
    (plain : ∀ agent ∈ agents, '/' ∉ agent.stem.toList) :
    ∀ artifact ∈ planOf targets locale agents, artifact.path.IsOrdinary :=
  fun artifact member => isOrdinary_of_isOutput (isOutput_planOf targets locale plain artifact member)

theorem toolkit_notMem_planOf (targets : List Target) (locale : Locale)
    (plain : ∀ agent ∈ agents, '/' ∉ agent.stem.toList) :
    ∀ artifact ∈ planOf targets locale agents, toolkitDirectory ∉ artifact.path.moves := by
  intro artifact member inside
  obtain ⟨target, _, planned⟩ := List.mem_flatMap.mp member
  exact ((Target.isNeutral_plan plain planned).2 _ inside).1 rfl

/-! ## Installing targets -/

/-- Targets are installed if the first one is, and then the others. -/
theorem installAll_cons_eq_ok_iff {target : Target} :
    installAll agents locale root before (target :: targets) = (after, .ok results) ↔
      ∃ middle outcomes others,
        deliver root (target.plan locale agents) before = (middle, .ok outcomes) ∧
        installAll agents locale root middle targets = (after, .ok others) ∧
        results = (target, outcomes) :: others := by
  rw [installAll, Target.install_eq_deliver]
  rcases deliver root (target.plan locale agents) before with ⟨middle, failure | outcomes⟩
  · simp
  · rcases rest : installAll agents locale root middle targets with ⟨last, trouble | others⟩ <;>
      simp [rest, eq_comm, and_comm]

/-- Installing targets touches what belongs to their artifacts, however it ends. -/
theorem touches_installAll (plain : ∀ agent ∈ agents, '/' ∉ agent.stem.toList)
    (targets : List Target) (locale : Locale) (root : Path) (before : Tree) :
    Touches root (planOf targets locale agents) (planOf targets locale agents) before
      (installAll agents locale root before targets).1 := by
  induction targets generalizing before with
  | nil => exact .refl root _ _ before
  | cons target targets ih =>
      have first := Delivery.touches_deliver (target.isOrdinary_plan locale plain) root before
      have own := List.subset_append_left (target.plan locale agents) (planOf targets locale agents)
      rw [planOf_cons, installAll, Target.install_eq_deliver]
      rcases done : deliver root (target.plan locale agents) before with ⟨middle, failure | _⟩ <;>
        rw [done] at first
      · exact first.mono own own
      · have second := first.append (ih middle)
        rcases rest : installAll agents locale root middle targets with ⟨after, trouble | _⟩ <;>
          simpa only [rest] using second

/-- Every target that was installed can be installed again. -/
theorem repeatable_of_installAll (plain : ∀ agent ∈ agents, '/' ∉ agent.stem.toList)
    (installed : installAll agents locale root before targets = (after, .ok results)) :
    ∀ target ∈ targets, Repeatable root (target.plan locale agents) after := by
  induction targets generalizing before results with
  | nil => simp
  | cons target targets ih =>
      obtain ⟨middle, outcomes, others, delivered, rest, rfl⟩ :=
        installAll_cons_eq_ok_iff.mp installed
      have ordinary := target.isOrdinary_plan locale plain
      have second := touches_installAll plain targets locale root middle
      rw [rest] at second
      intro other member
      rcases List.mem_cons.mp member with rfl | inside
      · exact (Delivery.repeatable_of_deliver ordinary delivered).mono second.toWithin
      · exact ih rest other inside

/-- Installing targets tells of all targets in their order, and of the paths that are kept
of every plan. -/
theorem paths_of_installAll (plain : ∀ agent ∈ agents, '/' ∉ agent.stem.toList)
    (installed : installAll agents locale root before targets = (after, .ok results)) :
    results.map (fun result => (result.1, result.2.map (·.path))) =
      targets.map fun target =>
        (target, (keepLast (target.plan locale agents)).map (·.path)) := by
  induction targets generalizing before results with
  | nil =>
      obtain ⟨rfl, rfl⟩ : before = after ∧ [] = results := by simpa [installAll] using installed
      rfl
  | cons target targets ih =>
      obtain ⟨middle, outcomes, others, delivered, rest, rfl⟩ :=
        installAll_cons_eq_ok_iff.mp installed
      rw [List.map_cons, List.map_cons, ih rest,
        Delivery.paths_of_deliver (target.isOrdinary_plan locale plain) delivered]

theorem map_fst_of_installAll (plain : ∀ agent ∈ agents, '/' ∉ agent.stem.toList)
    (installed : installAll agents locale root before targets = (after, .ok results)) :
    results.map (·.1) = targets := by
  have told := congrArg (List.map (·.1)) (paths_of_installAll plain installed)
  simpa [Function.comp_def] using told

/-- Installing targets leaves what all their artifacts leave, tells the paths that are
kept of every plan, and can be repeated. -/
theorem of_installAll (plain : ∀ agent ∈ agents, '/' ∉ agent.stem.toList)
    (steady : before.Steady root)
    (installed : installAll agents locale root before targets = (after, .ok results)) :
    Leaves root (planOf targets locale agents) before after ∧
      (∀ target ∈ targets, Repeatable root (target.plan locale agents) after) ∧
      results.map (fun result => (result.1, result.2.map (·.path))) =
        targets.map fun target =>
          (target, (keepLast (target.plan locale agents)).map (·.path)) := by
  refine ⟨?_, repeatable_of_installAll plain installed, paths_of_installAll plain installed⟩
  induction targets generalizing before results with
  | nil =>
      obtain ⟨rfl, rfl⟩ : before = after ∧ [] = results := by simpa [installAll] using installed
      exact .nil root before
  | cons target targets ih =>
      obtain ⟨middle, outcomes, others, delivered, rest, rfl⟩ :=
        installAll_cons_eq_ok_iff.mp installed
      have first :=
        Delivery.leaves_of_deliver steady (target.isOrdinary_plan locale plain) delivered
      have second := ih (steady.mono first.toKeepsDirectories) rest
      rw [planOf_cons]
      refine first.trans ?_ second
      rw [← planOf_cons]
      exact isOrdinary_planOf _ locale plain

/-- Without agents nothing is written for any target. -/
theorem installAll_nil (targets : List Target) (locale : Locale) (root : Path) (before : Tree) :
    installAll [] locale root before targets =
      (before, .ok (targets.map fun target => (target, []))) := by
  induction targets with
  | nil => rfl
  | cons target targets ih =>
      have nothing : target.install [] locale root before = (before, .ok []) := rfl
      simp only [installAll, nothing, ih, List.map_cons]

/-- What is told when every file of every target is there already. -/
def renewed (targets : List Target) (locale : Locale) (agents : List Agent) :
    List (Target × List Delivered) :=
  targets.map fun target =>
    (target, (keepLast (target.plan locale agents)).map fun artifact => ⟨artifact.path, true⟩)

/-- Installing targets again finds every file and makes no directory. -/
theorem installAll_of_repeatable (plain : ∀ agent ∈ agents, '/' ∉ agent.stem.toList)
    (steady : before.Steady root)
    (repeatable : ∀ target ∈ targets, Repeatable root (target.plan locale agents) before) :
    ∃ after, installAll agents locale root before targets =
        (after, .ok (renewed targets locale agents)) ∧ KeepsDirectories after before := by
  induction targets generalizing before with
  | nil => exact ⟨before, rfl, .refl before⟩
  | cons target targets ih =>
      have ordinary := target.isOrdinary_plan locale plain
      obtain ⟨middle, delivered, leaves, adds_none⟩ :=
        (repeatable target List.mem_cons_self).deliver steady ordinary
      obtain ⟨after, rest, adds_none'⟩ := ih (steady.mono leaves.toKeepsDirectories)
        fun other member => (repeatable other (List.mem_cons_of_mem _ member)).mono leaves.within
      exact ⟨after, installAll_cons_eq_ok_iff.mpr ⟨middle, _, _, delivered, rest, rfl⟩,
        adds_none'.trans adds_none⟩

/-! ## Carrying out a job -/

theorem loadSettings_eq_ok_iff {settings : Option Settings} :
    loadSettings before root = .ok settings ↔ Settings.load before root = .ok settings := by
  unfold loadSettings
  cases Settings.load before root <;> simp

theorem LoadOptions.loadRoster_eq_ok_iff {options : LoadOptions} {shared : Option String}
    {roster : Roster} :
    options.loadRoster root locale shared before = .ok roster ↔
      (options.request root locale shared).load before = .ok roster := by
  unfold loadRoster
  cases (options.request root locale shared).load before <;> simp

namespace Job

variable {job : Job} {time : Timestamp} {shared : Option String} {installed : Installed}

/-- A job is recorded if the settings can be loaded and kept. -/
theorem record_eq_ok_iff :
    job.record root time before = (after, .ok ()) ↔
      ∃ settings, Settings.load before root = .ok settings ∧ ∃ outcomes,
        deliver root [(job.stamp (settings.getD .default) time).artifact] before =
          (after, .ok outcomes) := by
  unfold record loadSettings
  cases Settings.load before root with
  | error failure => simp
  | ok settings =>
      simp only [Except.ok.injEq, exists_eq_left', ← Settings.save_eq_ok_iff]
      rcases (job.stamp (settings.getD .default) time).save root before with ⟨_, fault | ⟨⟩⟩ <;> simp

theorem carryOut_eq_ok_iff :
    job.carryOut root time shared before = (after, .ok installed) ↔
      ∃ roster middle targets,
        (job.loading.request root job.locale shared).load before = .ok roster ∧
        installAll roster.agents job.locale root before job.targets = (middle, .ok targets) ∧
        job.record root time middle = (after, .ok ()) ∧
        installed = ⟨job.locale, roster, targets⟩ := by
  simp only [← LoadOptions.loadRoster_eq_ok_iff]
  unfold carryOut
  cases job.loading.loadRoster root job.locale shared before with
  | error trouble => simp
  | ok roster =>
      rcases first : installAll roster.agents job.locale root before job.targets with
        ⟨middle, trouble | targets⟩
      · simp [first]
      · rcases second : job.record root time middle with ⟨last, trouble | ⟨⟩⟩ <;>
          simp [first, second, eq_comm]

/-- A job that succeeds has found its profile and was carried out. -/
theorem of_run (done : (job.run root time before).result = .ok installed) :
    ∃ shared, sharedRules job.rules job.profile = .ok shared ∧
      job.carryOut root time shared before = ((job.run root time before).tree, .ok installed) := by
  unfold run at done ⊢
  cases rules : sharedRules job.rules job.profile with
  | error failure =>
      rw [rules] at done
      contradiction
  | ok shared =>
      rw [rules] at done
      exact ⟨shared, rfl, Prod.ext rfl done⟩

/-- The steps of a job that succeeds: its profile is known, its agents are loaded, its targets are
installed, and the settings that are loaded then are kept with its stamp. -/
theorem steps_of_run (done : (job.run root time before).result = .ok installed) :
    ∃ shared roster middle results settings outcomes,
      sharedRules job.rules job.profile = .ok shared ∧
      (job.loading.request root job.locale shared).load before = .ok roster ∧
      installAll roster.agents job.locale root before job.targets = (middle, .ok results) ∧
      Settings.load middle root = .ok settings ∧
      deliver root [(job.stamp (settings.getD .default) time).artifact] middle =
        ((job.run root time before).tree, .ok outcomes) ∧
      installed = ⟨job.locale, roster, results⟩ := by
  obtain ⟨shared, rules, carried⟩ := of_run done
  obtain ⟨roster, middle, results, loaded, first, recorded, whole⟩ := carryOut_eq_ok_iff.mp carried
  obtain ⟨settings, found, outcomes, kept⟩ := record_eq_ok_iff.mp recorded
  exact ⟨shared, roster, middle, results, settings, outcomes, rules, loaded, first, found, kept,
    whole⟩

end Job

end AgentKit
