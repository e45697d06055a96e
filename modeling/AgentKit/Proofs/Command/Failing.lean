/-
# Commands that fail

Most trouble is found before anything is written. What is left can be met while targets
are installed, while the settings are loaded for the second time, to be recorded in, and
while they are kept. Until then artifacts were written and directories were made, but
none of them is the settings file. So a command that fails is not recorded.

The settings can be loaded for the first time and not for the second one only below a
root that leads upwards through a directory that the command has made.
-/

import AgentKit.Command.Choice
import AgentKit.Command.Overview
import AgentKit.Command.Renewal
import AgentKit.Proofs.Command.Job
import AgentKit.Proofs.Command.Rules

namespace AgentKit

open Files (Entry Location Tree)
open Files.Tree (SameFile bind_eq_error_iff)
open Delivery (Touches)

variable {root : Path} {before middle after : Tree} {base : Location} {trouble : Trouble}
  {failure : Failure} {time : Timestamp}

/-! ## What is spared -/

/-- Outputs of installations are touched, but the settings file is not written. -/
def SparesSettings (root : Path) (before after : Tree) : Prop :=
  ∃ made written, (∀ artifact ∈ made, IsOutput artifact) ∧
    (∀ artifact ∈ written, toolkitDirectory ∉ artifact.path.moves) ∧
    Touches root made written before after

namespace SparesSettings

theorem sameFile (spares : SparesSettings root before after)
    (reached : after.reach root = .ok base) :
    SameFile before after (base ++ Settings.file.moves) := by
  obtain ⟨made, written, _, clear, touches⟩ := spares
  refine touches.sameFile fun base' reached' artifact member here => ?_
  obtain rfl := Except.ok.inj (reached.symm.trans reached')
  refine clear artifact member ?_
  rw [← List.append_cancel_left here, Settings.moves_file]
  exact List.mem_cons_self

/-- Below a steady root the settings file is found as it was, whatever it is. -/
theorem entryAt_file_iff (spares : SparesSettings root before after)
    (steady : before.Steady root) {entry : Entry} :
    after.entryAt (root.join Settings.file) = .ok entry ↔
      before.entryAt (root.join Settings.file) = .ok entry := by
  obtain ⟨made, written, outputs, clear, touches⟩ := spares
  have inside : toolkitDirectory ∈ Settings.file.moves := by
    rw [Settings.moves_file]
    exact List.mem_cons_self
  have ordinary : ∀ artifact ∈ made, artifact.path.IsOrdinary :=
    fun artifact member => isOrdinary_of_isOutput (outputs artifact member)
  refine Settings.entryAt_file_congr steady touches.toKeepsDirectories fun base reached =>
    touches.find?_of_free steady ordinary reached
      (fun artifact member here => clear artifact member (here ▸ inside))
      fun artifact member begins => ?_
  -- The settings file is no directory of an output.
  rcases outputs artifact member with settings | ⟨_, _, neutral⟩
  · rw [settings, Settings.moves_file] at begins
    exact absurd begins (by decide)
  · exact (neutral _ (List.dropLast_subset _ (begins.subset inside))).1 rfl

/-- Below a steady root the settings are loaded as before. -/
theorem load_eq (spares : SparesSettings root before after) (steady : before.Steady root) :
    Settings.load after root = Settings.load before root :=
  Settings.load_congr fun _ => spares.entryAt_file_iff steady

end SparesSettings

/-- Installing targets does not write the settings file. -/
theorem sparesSettings_installAll {agents : List Agent}
    (plain : ∀ agent ∈ agents, '/' ∉ agent.stem.toList) (targets : List Target) (locale : Locale)
    (root : Path) (before : Tree) :
    SparesSettings root before (installAll agents locale root before targets).1 :=
  ⟨_, _, isOutput_planOf targets locale plain, toolkit_notMem_planOf targets locale plain,
    touches_installAll plain targets locale root before⟩

/-- Settings that cannot be kept are not written. -/
theorem SparesSettings.of_save {settings : Settings} (spares : SparesSettings root before middle)
    (failed : settings.save root middle = (after, .error failure)) :
    SparesSettings root before after := by
  obtain ⟨made, written, outputs, clear, touches⟩ := spares
  refine ⟨made ++ [settings.artifact], written ++ [], fun artifact member => ?_,
    by simpa using clear, touches.append (Settings.of_save_eq_error failed).1⟩
  rcases List.mem_append.mp member with early | late
  · exact outputs artifact early
  · rw [List.mem_singleton.mp late]
    exact .inl rfl

/-! ## How commands fail -/

/-- The trouble of a command, and the tree that it leaves. -/
inductive Fails (root : Path) (before : Tree) : Trouble → Tree → Prop where
  | target (name : String) : Fails root before ⟨none, .unknownTarget name⟩ before
  | profile (key : String) : Fails root before ⟨none, .unknownProfile key⟩ before
  | rules (path : Path) (fault : Files.Fault) :
    Fails root before ⟨some (.readingRules path), .files fault⟩ before
  | definitions (path : Path) :
    Fails root before ⟨some .loadingDefinitions, .definitionsNotFound path⟩ before
  | settings {failure : Failure} (failed : Settings.load before root = .error failure) :
    Fails root before ⟨some .loadingSettings, failure⟩ before
  | installing (target : Target) (path : Path) (fault : Files.Fault) {after : Tree}
    (spares : SparesSettings root before after) :
    Fails root before ⟨some (.installing target), .write path fault⟩ after
  | recording {settings : Option Settings} {failure : Failure} {after : Tree}
    (spares : SparesSettings root before after) (loaded : Settings.load before root = .ok settings)
    (failed : Settings.load after root = .error failure) :
    Fails root before ⟨some .loadingSettings, failure⟩ after
  | saving (fault : Files.Fault) {after : Tree} (spares : SparesSettings root before after) :
    Fails root before ⟨some .savingSettings, .files fault⟩ after

theorem loadSettings_eq_error_iff :
    loadSettings before root = .error trouble ↔
      ∃ failure, Settings.load before root = .error failure ∧
        trouble = ⟨some .loadingSettings, failure⟩ := by
  unfold loadSettings
  cases Settings.load before root <;> simp [eq_comm]

theorem Fails.of_loadSettings (failed : loadSettings before root = .error trouble) :
    Fails root before trouble before := by
  obtain ⟨failure, stuck, rfl⟩ := loadSettings_eq_error_iff.mp failed
  exact .settings stuck

/-- Shared rules are refused only for a profile that is not known. -/
theorem sharedRules_eq_error_iff {rules profile : Option String} :
    sharedRules rules profile = .error failure ↔
      ∃ key, profile = some key ∧ StackProfile.find? key = none ∧
        failure = .unknownProfile key := by
  unfold sharedRules
  cases profile with
  | none => simp
  | some key =>
      cases known : StackProfile.find? key with
      | none => simp [known, eq_comm]
      | some profile => simp [known]

theorem Fails.of_sharedRules {rules profile : Option String}
    (failed : sharedRules rules profile = .error failure) :
    Fails root before ⟨none, failure⟩ before := by
  obtain ⟨key, _, _, rfl⟩ := sharedRules_eq_error_iff.mp failed
  exact .profile key

theorem Fails.of_loadRoster {options : LoadOptions} {locale : Locale} {shared : Option String}
    (failed : options.loadRoster root locale shared before = .error trouble) :
    Fails root before trouble before := by
  unfold LoadOptions.loadRoster at failed
  rcases LoadRequest.files_spec (options.request root locale shared) before with
    ⟨names, listed, _⟩ | ⟨path, _, _, missing⟩
  · rw [LoadRequest.load_of_files listed] at failed
    contradiction
  · rw [LoadRequest.load, missing] at failed
    exact Except.error.inj failed ▸ .definitions path

theorem installAll_eq_error {agents : List Agent} {locale : Locale} {targets : List Target}
    (failed : (installAll agents locale root before targets).2 = .error trouble) :
    ∃ target ∈ targets, ∃ path fault,
      trouble = ⟨some (.installing target), .write path fault⟩ := by
  induction targets generalizing before with
  | nil => contradiction
  | cons target targets ih =>
      rw [installAll, Target.install_eq_deliver] at failed
      rcases done : deliver root (target.plan locale agents) before with ⟨middle, failure | _⟩ <;>
        simp only [done] at failed
      · obtain ⟨path, fault, rfl⟩ := Delivery.exists_write_of_deliver (congrArg Prod.snd done)
        exact ⟨target, List.mem_cons_self, path, fault, (Except.error.inj failed).symm⟩
      · rcases rest : installAll agents locale root middle targets with ⟨last, other | _⟩ <;>
          simp only [rest] at failed
        · obtain rfl := Except.error.inj failed
          obtain ⟨later, member, stuck⟩ := ih (congrArg Prod.snd rest)
          exact ⟨later, List.mem_cons_of_mem _ member, stuck⟩
        · contradiction

namespace Job

variable {job : Job} {settings : Option Settings}

theorem fails_of_record (spares : SparesSettings root before middle)
    (loaded : Settings.load before root = .ok settings)
    (failed : job.record root time middle = (after, .error trouble)) :
    Fails root before trouble after := by
  unfold record at failed
  cases again : loadSettings middle root with
  | error other =>
      obtain ⟨failure, stuck, rfl⟩ := loadSettings_eq_error_iff.mp again
      obtain ⟨rfl, rfl⟩ : middle = after ∧ _ = trouble := by simpa [again] using failed
      exact .recording spares loaded stuck
  | ok found =>
      simp only [again] at failed
      rcases kept : (job.stamp (found.getD .default) time).save root middle with
        ⟨last, failure | ⟨⟩⟩ <;> simp only [kept] at failed
      · obtain ⟨rfl, rfl⟩ : last = after ∧ _ = trouble := by simpa using failed
        obtain ⟨fault, rfl⟩ := (Settings.of_save_eq_error kept).2
        exact .saving fault (spares.of_save kept)
      · simp at failed

/-- A job for which the settings were loaded fails in one of the known ways. -/
theorem fails_of_run (loaded : Settings.load before root = .ok settings)
    (failed : (job.run root time before).result = .error trouble) :
    Fails root before trouble (job.run root time before).tree := by
  unfold run at failed ⊢
  cases rules : sharedRules job.rules job.profile with
  | error failure =>
      simp only [rules, Run.refused, Except.error.injEq] at failed ⊢
      exact failed ▸ .of_sharedRules rules
  | ok shared =>
      simp only [rules, carryOut] at failed ⊢
      cases found : job.loading.loadRoster root job.locale shared before with
      | error other =>
          simp only [found, Except.error.injEq] at failed ⊢
          exact failed ▸ .of_loadRoster found
      | ok roster =>
          have plain : ∀ agent ∈ roster.agents, '/' ∉ agent.stem.toList := fun _ =>
            LoadRequest.slash_notMem_stem (LoadOptions.loadRoster_eq_ok_iff.mp found)
          have spares := sparesSettings_installAll plain job.targets job.locale root before
          rcases first : installAll roster.agents job.locale root before job.targets with
            ⟨middle, other | results⟩ <;> rw [first] at spares <;>
            simp only [found, first] at failed ⊢
          · obtain ⟨target, _, path, fault, rfl⟩ := installAll_eq_error (congrArg Prod.snd first)
            exact Except.error.inj failed ▸ .installing target path fault spares
          · rcases second : job.record root time middle with ⟨last, other | ⟨⟩⟩ <;>
              simp only [second] at failed ⊢
            · exact Except.error.inj failed ▸ fails_of_record spares loaded second
            · contradiction

end Job

namespace Choice

variable {choice : Choice}

theorem targetOf_eq_error {tool : String} (failed : targetOf tool = .error failure) :
    failure = .unknownTarget tool := by
  unfold targetOf at failed
  split at failed
  · contradiction
  · exact (Except.error.inj failed).symm

theorem mapM_targetOf_eq_error {tools : List String}
    (failed : tools.mapM targetOf = .error failure) :
    ∃ name ∈ tools, failure = .unknownTarget name := by
  induction tools with
  | nil => contradiction
  | cons tool tools ih =>
      rw [List.mapM_cons] at failed
      rcases bind_eq_error_iff.mp failed with unknown | ⟨_, _, failed⟩
      · exact ⟨tool, List.mem_cons_self, targetOf_eq_error unknown⟩
      · rcases bind_eq_error_iff.mp failed with later | ⟨_, _, failed⟩
        · obtain ⟨name, member, whole⟩ := ih later
          exact ⟨name, List.mem_cons_of_mem _ member, whole⟩
        · contradiction

/-- Tools name no targets only because of one that is unknown. -/
theorem targetsOf_eq_error {tools : List String} (failed : targetsOf tools = .error failure) :
    ∃ name ∈ tools, failure = .unknownTarget name := by
  unfold targetsOf at failed
  split at failed
  · contradiction
  · refine mapM_targetOf_eq_error ?_
    cases each : tools.mapM targetOf <;> simp_all [Except.map]

theorem fails_of_chosenRules (failed : choice.chosenRules before = .error trouble) :
    Fails root before trouble before := by
  unfold chosenRules at failed
  split at failed
  · contradiction
  · next path _ =>
    split at failed
    · contradiction
    · next fault _ => exact Except.error.inj failed ▸ .rules path fault

theorem fails_of_job (failed : choice.job root before = .error trouble) :
    Fails root before trouble before := by
  unfold job at failed
  cases named : targetsOf choice.tools with
  | error failure =>
      obtain ⟨name, _, rfl⟩ := targetsOf_eq_error named
      simp only [named, Except.error.injEq] at failed
      exact failed ▸ .target name
  | ok targets =>
      simp only [named] at failed
      rcases bind_eq_error_iff.mp failed with unsettled | ⟨settings, _, failed⟩
      · exact .of_loadSettings unsettled
      · rcases bind_eq_error_iff.mp failed with unread | ⟨rules, _, failed⟩
        · exact fails_of_chosenRules unread
        · contradiction

theorem fails_of_run (failed : (choice.run root time before).result = .error trouble) :
    Fails root before trouble (choice.run root time before).tree := by
  unfold run at failed ⊢
  cases made : choice.job root before with
  | error other =>
      simp only [made, Run.refused, Except.error.injEq] at failed ⊢
      exact failed ▸ fails_of_job made
  | ok job =>
      simp only [made] at failed ⊢
      obtain ⟨_, settings, _, _, loaded, _⟩ := job_eq_ok_iff.mp made
      exact Job.fails_of_run loaded failed

end Choice

theorem Renewal.fails_of_run {options : LoadOptions}
    (failed : (run options root time before).result = .error trouble) :
    Fails root before trouble (run options root time before).tree := by
  unfold run at failed ⊢
  cases loaded : loadSettings before root with
  | error other =>
      simp only [loaded, Run.refused, Except.error.injEq] at failed ⊢
      exact failed ▸ .of_loadSettings loaded
  | ok settings =>
      simp only [loaded] at failed ⊢
      split at failed
      · contradiction
      · next target others _ =>
        simp only [runJob] at failed ⊢
        refine Job.fails_of_run (loadSettings_eq_ok_iff.mp loaded) ?_
        cases ended : ((job options settings (target :: others)).run root time before).result with
        | error other => simpa [ended, Except.map] using failed
        | ok installed => simp [ended, Except.map] at failed

theorem LoadOptions.fails_of_list {options : LoadOptions}
    (failed : options.list root before = .error trouble) : Fails root before trouble before := by
  unfold list at failed
  rcases bind_eq_error_iff.mp failed with unsettled | ⟨settings, _, failed⟩
  · exact .of_loadSettings unsettled
  · simp only at failed
    split at failed
    · next failure unknown => exact Except.error.inj failed ▸ .of_sharedRules unknown
    · rcases bind_eq_error_iff.mp failed with unloaded | ⟨roster, _, failed⟩
      · exact .of_loadRoster unloaded
      · contradiction

theorem Overview.fails_of_ofProject (failed : ofProject root before = .error trouble) :
    Fails root before trouble before := by
  unfold ofProject at failed
  rcases bind_eq_error_iff.mp failed with unsettled | ⟨settings, _, failed⟩
  · exact .of_loadSettings unsettled
  · contradiction

/-! ## What failing commands leave -/

/-- Trouble that is found before anything is written: a target or a profile that is unknown,
rules or definitions that cannot be read. -/
inductive Trouble.IsEarly : Trouble → Prop where
  | target (name : String) : IsEarly ⟨none, .unknownTarget name⟩
  | profile (key : String) : IsEarly ⟨none, .unknownProfile key⟩
  | rules (path : Path) (fault : Files.Fault) : IsEarly ⟨some (.readingRules path), .files fault⟩
  | definitions (path : Path) : IsEarly ⟨some .loadingDefinitions, .definitionsNotFound path⟩

/-- What a command leaves that is not recorded. -/
structure Unrecorded (root : Path) (trouble : Trouble) (before after : Tree) : Prop where
  /-- The settings file has the bytes that it had, or there still is none. -/
  bytes : ∀ base, after.reach root = .ok base →
    SameFile before after (base ++ Settings.file.moves)
  /-- Below a steady root whatever is at the path of the settings file was there. -/
  entry : before.Steady root → ∀ entry, after.entryAt (root.join Settings.file) = .ok entry ↔
    before.entryAt (root.join Settings.file) = .ok entry
  /-- Nothing is changed by early trouble. -/
  early : trouble.IsEarly → after = before
  /-- Nor is it below a steady root by settings that cannot be loaded. -/
  settings : trouble.task = some .loadingSettings → before.Steady root → after = before
  /-- All other trouble is that a file or a directory cannot be written. -/
  cause : trouble.IsEarly ∨ trouble.task = some .loadingSettings ∨
    (∃ target path fault, trouble = ⟨some (.installing target), .write path fault⟩) ∨
    ∃ fault, trouble = ⟨some .savingSettings, .files fault⟩

theorem Fails.spares (fails : Fails root before trouble after) :
    SparesSettings root before after := by
  have same : SparesSettings root before before :=
    ⟨[], [], by simp, by simp, .refl root [] [] before⟩
  cases fails with
  | target | profile | rules | definitions | settings => exact same
  | installing _ _ _ spares => exact spares
  | recording spares => exact spares
  | saving _ spares => exact spares

theorem Fails.unrecorded (fails : Fails root before trouble after) :
    Unrecorded root trouble before after where
  bytes _ reached := fails.spares.sameFile reached
  entry steady _ := fails.spares.entryAt_file_iff steady
  early early := by
    cases fails with
    | target | profile | rules | definitions | settings => rfl
    | installing | recording | saving => cases early
  settings task steady := by
    cases fails with
    | settings => rfl
    | recording spares loaded failed =>
        rw [spares.load_eq steady, loaded] at failed
        contradiction
    | target | profile | rules | definitions | installing | saving => simp at task
  cause := by
    cases fails with
    | target name => exact .inl (.target name)
    | profile key => exact .inl (.profile key)
    | rules path fault => exact .inl (.rules path fault)
    | definitions path => exact .inl (.definitions path)
    | settings => exact .inr (.inl rfl)
    | recording => exact .inr (.inl rfl)
    | installing target path fault => exact .inr (.inr (.inl ⟨target, path, fault, rfl⟩))
    | saving fault => exact .inr (.inr (.inr ⟨fault, rfl⟩))

end AgentKit
