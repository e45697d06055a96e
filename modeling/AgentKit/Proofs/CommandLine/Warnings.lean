/-
# What the warnings of an overview predict

The overview of a project warns of what is recorded and not known. The other commands decide
about the same texts when they take them for real, and the warnings tell how: a listing fails
with an unknown profile exactly where the overview warns of an error, and so does an upgrade that
has some target; the recorded tools are those that an upgrade is for, together with those that
are warned about; and where nothing is warned of, an upgrade without choices is for every
recorded tool, in the language that is recorded.

An upgrade without any target ends before it looks at the profile.
-/

import AgentKit.Proofs.CommandLine.Failing
import AgentKit.Proofs.CommandLine.Recording

namespace AgentKit

open Files (Tree)
open CommandLine (Environment Presentation Request run_of_asked)

variable {environment : Environment} {words : List String} {given : Option Path} {json : Bool}
  {root : Path} {time : Timestamp} {before tree after : Tree} {settings : Settings} {job : Job}
  {trouble : Trouble} {failure : Failure} {key : String} {options : LoadOptions}

/-! ## Unknown profiles -/

/-- What a job meets after its profile is known belongs to a task. -/
theorem Job.task_of_carryOut {shared : Option String}
    (failed : job.carryOut root time shared before = (after, .error trouble)) :
    trouble.task ≠ none := by
  unfold carryOut at failed
  cases loaded : job.loading.loadRoster root job.locale shared before with
  | error other =>
      obtain ⟨rfl, rfl⟩ : before = after ∧ other = trouble := by simpa [loaded] using failed
      simp [LoadOptions.task_of_loadRoster loaded]
  | ok roster =>
      rcases first : installAll roster.agents job.locale root before job.targets with
        ⟨middle, other | results⟩ <;> simp only [loaded, first] at failed
      · obtain ⟨target, _, path, fault, rfl⟩ := installAll_eq_error (congrArg Prod.snd first)
        rw [← Except.error.inj (Prod.mk.inj failed).2]
        simp
      · rcases second : job.record root time middle with ⟨last, other | ⟨⟩⟩ <;>
          simp only [second, Prod.mk.injEq, Except.error.injEq, reduceCtorEq, and_false] at failed
        obtain ⟨rfl, rfl⟩ := failed
        rcases task_of_record second with loading | saving <;> simp [*]

/-- A job fails before any task exactly if its profile is not known. -/
theorem Job.run_eq_error_iff :
    (job.run root time before).result = .error ⟨none, failure⟩ ↔
      sharedRules job.rules job.profile = .error failure := by
  unfold run
  cases rules : sharedRules job.rules job.profile with
  | error other => simp [Run.refused]
  | ok shared =>
      simp only [reduceCtorEq, iff_false]
      intro failed
      exact task_of_carryOut (Prod.ext rfl failed) rfl

/-- A listing of settings fails before any task exactly if their profile is not known. -/
theorem LoadOptions.list_eq_error_iff
    (loaded : Settings.load tree root = .ok (some settings)) :
    options.list root tree = .error ⟨none, failure⟩ ↔
      sharedRules settings.globalRules settings.profile = .error failure := by
  simp only [list, loadSettings_eq_ok_iff.mpr loaded, bind, Except.bind, Option.bind_some]
  cases sharedRules settings.globalRules settings.profile with
  | error other => simp
  | ok shared =>
      cases found : options.loadRoster root (options.localeWith (some settings)) shared tree with
      | error trouble =>
          have task := task_of_loadRoster found
          simp only [found, Except.error.injEq, reduceCtorEq, iff_false]
          rintro rfl
          contradiction
      | ok roster => simp [found]

namespace Command

theorem ending_list_eq_iff :
    (list options).ending root time tree = .error trouble ↔
      options.list root tree = .error trouble := by
  rw [ending]
  cases options.list root tree <;> simp [Except.map]

/-- An upgrade with some target ends like the job for its targets. -/
theorem ending_upgrade_eq_iff (made : (upgrade options).job? root tree = some job) :
    (upgrade options).ending root time tree = .error trouble ↔
      (job.run root time tree).result = .error trouble := by
  obtain ⟨settings, loaded, some_target, rfl⟩ := job?_upgrade_iff.mp made
  obtain ⟨target, others, listed⟩ := List.exists_cons_of_ne_nil some_target
  simp only [ending, Renewal.run, loadSettings_eq_ok_iff.mpr loaded, listed, Renewal.runJob]
  cases ((Renewal.job options settings (target :: others)).run root time tree).result <;>
    simp [Except.map]

end Command

/-! ## Predictions -/

namespace Settings

/-- What the warnings about the settings of a project tell of listings and upgrades. -/
structure Predict (settings : Settings) (root : Path) (tree : Tree) : Prop where
  /-- A listing fails with an unknown profile exactly if there is a warning of the level of
  errors. -/
  list : ∀ options time, (∃ warning ∈ settings.warnings, warning.level = "error") ↔
    ∃ key, (Command.list options).ending root time tree = .error ⟨none, .unknownProfile key⟩
  /-- So does an upgrade that has some target. -/
  upgrade : Renewal.targets (some settings) root tree ≠ [] → ∀ options time,
    (∃ warning ∈ settings.warnings, warning.level = "error") ↔
      ∃ key, (Command.upgrade options).ending root time tree =
        .error ⟨none, .unknownProfile key⟩
  /-- The recorded tools are those that name targets together with those that are warned about,
  each in its place. -/
  tools : Sorts settings.tools settings.targets (settings.warnings.filterMap Warning.tool?)
  /-- If there is no warning, the job of an upgrade without choices is in the recorded
  language. -/
  language : settings.warnings = [] → ∀ definitions job,
    (Command.upgrade ⟨none, definitions⟩).job? root tree = some job →
      job.locale.key = settings.locale
  /-- If there is no warning and some tool is recorded, such an upgrade runs a job for the targets
  that the tools name one by one; if it succeeds, these were installed in the recorded
  language. -/
  targets : settings.warnings = [] → settings.tools ≠ [] → ∀ definitions json time, ∃ job,
    (Command.upgrade ⟨none, definitions⟩).job? root tree = some job ∧
      settings.tools.map Target.ofText? = job.targets.map some ∧
      CommandLine.perform (.upgrade ⟨none, definitions⟩) json root time tree =
        ((job.run root time tree).tree,
          (Command.upgrade ⟨none, definitions⟩).shown json job (job.run root time tree)) ∧
      ∀ installed, (job.run root time tree).result = .ok installed →
        installed.targets.map (·.1) = job.targets ∧ installed.locale.key = settings.locale

/-- The warning of the level of errors is about the profile. -/
theorem exists_error_iff :
    (∃ warning ∈ settings.warnings, warning.level = "error") ↔
      ∃ key, settings.profile = some key ∧ StackProfile.find? key = none := by
  constructor
  · rintro ⟨warning, member, heavy⟩
    obtain ⟨key, rfl⟩ := Warning.level_eq_error_iff.mp heavy
    exact ⟨key, unknownProfile_mem_warnings_iff.mp member⟩
  · rintro ⟨key, unknown⟩
    exact ⟨_, unknownProfile_mem_warnings_iff.mpr unknown, rfl⟩

/-- The profile is refused exactly if it is named and not known. -/
theorem sharedRules_eq_unknownProfile_iff :
    sharedRules settings.globalRules settings.profile = .error (.unknownProfile key) ↔
      settings.profile = some key ∧ StackProfile.find? key = none := by
  simp only [sharedRules_eq_error_iff, Failure.unknownProfile.injEq]
  constructor
  · rintro ⟨_, named, unknown, rfl⟩
    exact ⟨named, unknown⟩
  · rintro ⟨named, unknown⟩
    exact ⟨key, named, unknown, rfl⟩

theorem targets_ne_nil
    (known : ∀ tool ∈ settings.tools, ∃ target, Target.ofText? tool = some target)
    (some_tool : settings.tools ≠ []) : settings.targets ≠ [] := by
  intro none_named
  have named := map_ofText?_tools known
  rw [none_named, List.map_nil, List.map_eq_nil_iff] at named
  exact some_tool named

/-- An upgrade is for the targets of the settings if there are any. -/
theorem targets_eq_of_ne_nil (some_target : settings.targets ≠ []) :
    Renewal.targets (some settings) root tree = settings.targets := by
  rcases Renewal.targets_eq (some settings) root tree with
    ⟨_, same, _, listed⟩ | ⟨unknown, _⟩
  · obtain rfl := Option.some.inj same
    exact listed
  · exact absurd (unknown settings rfl) some_target

theorem predict_of_load (loaded : Settings.load tree root = .ok (some settings)) :
    settings.Predict root tree := by
  constructor
  case list =>
    intro options time
    simp only [exists_error_iff, Command.ending_list_eq_iff, LoadOptions.list_eq_error_iff loaded,
      sharedRules_eq_unknownProfile_iff]
  case upgrade =>
    intro some_target options time
    have made : (Command.upgrade options).job? root tree =
        some (Renewal.job options (some settings) (Renewal.targets (some settings) root tree)) :=
      Command.job?_upgrade_iff.mpr ⟨_, loaded, some_target, rfl⟩
    simp only [exists_error_iff, Command.ending_upgrade_eq_iff made, Job.run_eq_error_iff]
    exact exists_congr fun key => sharedRules_eq_unknownProfile_iff.symm
  case tools => exact settings.sorts_tools
  case language =>
    intro clean definitions job made
    obtain ⟨found, again, _, rfl⟩ := Command.job?_upgrade_iff.mp made
    obtain rfl : found = some settings := Except.ok.inj (again.symm.trans loaded)
    rw [Renewal.locale_job]
    exact (warnings_eq_nil_iff.mp clean).2.2
  case targets =>
    intro clean some_tool definitions json time
    obtain ⟨known, _, exact_key⟩ := warnings_eq_nil_iff.mp clean
    have some_target := targets_ne_nil known some_tool
    have listed : Renewal.targets (some settings) root tree = settings.targets :=
      targets_eq_of_ne_nil some_target
    have made : (Command.upgrade ⟨none, definitions⟩).job? root tree = some _ :=
      Command.job?_upgrade_iff.mpr ⟨_, loaded, listed ▸ some_target, rfl⟩
    refine ⟨_, made, by rw [Renewal.job, listed, map_ofText?_tools known],
      Command.perform_of_job? made, fun installed done => ?_⟩
    obtain ⟨targets, locale, _⟩ := Job.isRecorded_of_run done
    rw [Renewal.locale_job] at locale
    exact ⟨targets, by rw [locale, exact_key]⟩

end Settings

namespace CommandLine

/-- The overview of a project whose settings are loaded shows warnings that predict its listings
and upgrades. -/
theorem warnings_of_view
    (asked : Request.ofWords environment words = .run ⟨given, json, .view⟩)
    (loaded : Settings.load tree (ProjectRoot.resolve tree given) = .ok (some settings)) :
    ∃ overview, CommandLine.run environment words time tree =
        (tree, Presentation.overview.output json [] (.ok overview)) ∧
      overview.warnings = settings.warnings ∧
      settings.Predict (ProjectRoot.resolve tree given) tree := by
  let overview : Overview := ⟨ProjectRoot.resolve tree given, some settings,
    Target.detect tree (ProjectRoot.resolve tree given)⟩
  have looked : Overview.ofProject (ProjectRoot.resolve tree given) tree = .ok overview := by
    rw [Overview.ofProject, loadSettings_eq_ok_iff.mpr loaded]
    rfl
  refine ⟨overview, ?_, rfl, Settings.predict_of_load loaded⟩
  rw [run_of_asked asked, ← looked]
  rfl

/-- The overview of the project with a foreign tool warns of the tool and of the language. -/
theorem warnings_foreign :
    ∃ overview, CommandLine.run sampleEnvironment ["view"] sampleTime foreignTree =
        (foreignTree, Presentation.overview.output false [] (.ok overview)) ∧
      overview.warnings = [.unknownTool "emacs", .inexactLocale "EN-us" .english] ∧
      Settings.Sorts ["emacs", "web"] [.web] ["emacs"] ∧
      foreignSettings.Predict "/" foreignTree := by
  obtain ⟨root, read, _⟩ := delivered_foreign
  have asked : Request.ofWords sampleEnvironment ["view"] = .run ⟨none, false, .view⟩ := by decide
  have loaded : Settings.load foreignTree (ProjectRoot.resolve foreignTree none) =
      .ok (some foreignSettings) := root.symm ▸ load_foreign read
  have warned : foreignSettings.warnings =
      [.unknownTool "emacs", .inexactLocale "EN-us" .english] := by decide +kernel
  obtain ⟨overview, shown, same, predict⟩ := warnings_of_view asked loaded
  have sorts := predict.tools
  rw [targets_foreign, warned] at sorts
  exact ⟨overview, shown, same.trans warned, sorts, root ▸ predict⟩

end CommandLine

end AgentKit
