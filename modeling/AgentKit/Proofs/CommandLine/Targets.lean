/-
# The targets of a command line

What a command line installs, shows and records are the targets of one job, in one order.
Installations and renewals of what is detected are for no target twice. A renewal of what the
settings record is for a target as often as the settings name it, so settings that were written
by hand can make it install, show and record a target twice.
-/

import AgentKit.Proofs.Command.Targets
import AgentKit.Proofs.CommandLine.Performance
import AgentKit.Proofs.CommandLine.Upgrade

namespace AgentKit

open Files (Tree)
open CommandLine (Environment Output Presentation Request run_of_asked)

variable {environment : Environment} {words : List String} {given : Option Path} {json : Bool}
  {command : Command} {root : Path} {time : Timestamp} {tree : Tree} {job : Job}
  {targets : List Target}

namespace Command

/-- The job that a command carries out below a root, if it comes to one. -/
def job? (command : Command) (root : Path) (tree : Tree) : Option Job :=
  match command with
  | .install choice => (choice.job root tree).toOption
  | .upgrade options =>
    match Settings.load tree root with
    | .error _ => none
    | .ok settings =>
      match Renewal.targets settings root tree with
      | [] => none
      | target :: others => some (Renewal.job options settings (target :: others))
  | _ => none

theorem job?_install_iff {choice : Choice} :
    (install choice).job? root tree = some job ↔ choice.job root tree = .ok job := by
  cases made : choice.job root tree <;> simp [job?, made, Except.toOption]

theorem job?_upgrade_iff {options : LoadOptions} :
    (upgrade options).job? root tree = some job ↔
      ∃ settings, Settings.load tree root = .ok settings ∧
        Renewal.targets settings root tree ≠ [] ∧
        job = Renewal.job options settings (Renewal.targets settings root tree) := by
  cases loaded : Settings.load tree root with
  | error failure => simp [job?, loaded]
  | ok settings =>
      cases listed : Renewal.targets settings root tree with
      | nil => simp [job?, loaded, listed]
      | cons target others =>
          simp only [job?, loaded, listed, Option.some.injEq, Except.ok.injEq]
          constructor
          · rintro rfl
            exact ⟨settings, rfl, by simp [listed], by rw [listed]⟩
          · rintro ⟨_, rfl, _, rfl⟩
            rw [listed]

/-- Which targets a command is for, and in which order. -/
inductive IsFor (root : Path) (tree : Tree) : Command → List Target → Prop
  /-- An installation of everything is for all targets. -/
  | all {choice : Choice} (asked : choice.tools.any Choice.asksForAll) :
    IsFor root tree (.install choice) Target.all
  /-- Another installation is for the targets that are named, when they are first named. -/
  | named {choice : Choice} {named targets : List Target}
    (known : choice.tools.map Target.ofText? = named.map some)
    (mentions : IsFirstMentions named targets) : IsFor root tree (.install choice) targets
  /-- A renewal is for the targets that the settings name, whenever they name them. -/
  | recorded {options : LoadOptions} {settings : Settings}
    (loaded : Settings.load tree root = .ok (some settings)) (known : settings.targets ≠ []) :
    IsFor root tree (.upgrade options) (settings.tools.filterMap Target.ofText?)
  /-- A renewal for which the settings name no target is for those that are detected. -/
  | detected {options : LoadOptions} {settings : Option Settings}
    (loaded : Settings.load tree root = .ok settings)
    (unknown : ∀ recorded, settings = some recorded → recorded.targets = []) :
    IsFor root tree (.upgrade options) (Target.all.filter (Target.isDetected tree root))

theorem isFor_of_job? (made : command.job? root tree = some job) :
    command.IsFor root tree job.targets := by
  cases command with
  | install choice =>
      obtain ⟨targets, _, _, found, _, _, rfl⟩ :=
        Choice.job_eq_ok_iff.mp (job?_install_iff.mp made)
      rcases Choice.of_targetsOf found with ⟨asked, rfl⟩ | ⟨named, known, mentions⟩
      · exact .all asked
      · exact .named known mentions
  | upgrade options =>
      obtain ⟨settings, loaded, _, rfl⟩ := job?_upgrade_iff.mp made
      rcases Renewal.targets_eq settings root tree with
        ⟨recorded, rfl, known, listed⟩ | ⟨unknown, listed⟩
      · exact listed ▸ .recorded loaded known
      · exact listed ▸ .detected loaded unknown
  | list | targets | profiles | view => contradiction

/-- A command is for no target twice, unless it renews what the settings name twice. -/
theorem IsFor.nodup_iff (isFor : command.IsFor root tree targets) :
    targets.Nodup ↔ ∀ options settings, command = .upgrade options →
      Settings.load tree root = .ok (some settings) → settings.NamesOnce := by
  cases isFor with
  | all asked => exact iff_of_true (by decide) (by simp)
  | named known mentions => exact iff_of_true mentions.nodup (by simp)
  | @recorded options settings loaded known =>
      rw [show settings.tools.filterMap Target.ofText? = settings.targets from rfl,
        Settings.nodup_targets_iff, loaded]
      simp
  | @detected options settings loaded unknown =>
      refine iff_of_true (Target.nodup_detect tree root) ?_
      rintro _ recorded - found
      rw [loaded] at found
      rw [← Settings.nodup_targets_iff, unknown recorded (Except.ok.inj found)]
      exact .nil

/-- What a command shows of a run of its job. A renewal announces its targets. -/
def shown (command : Command) (json : Bool) (job : Job) (run : Run Installed) : Output :=
  match command with
  | .upgrade _ =>
    Presentation.renewal.output json (Renewal.announcement job :: run.announced)
      (run.result.map .renewed)
  | _ => Presentation.installed.output json run.announced run.result

theorem perform_of_job? (made : command.job? root tree = some job) :
    CommandLine.perform command json root time tree =
      ((job.run root time tree).tree, command.shown json job (job.run root time tree)) := by
  cases command with
  | install choice =>
      have ran : choice.run root time tree = job.run root time tree := by
        rw [Choice.run, job?_install_iff.mp made]
      rw [CommandLine.perform, ran]
      rfl
  | upgrade options =>
      obtain ⟨settings, loaded, some_target, rfl⟩ := job?_upgrade_iff.mp made
      obtain ⟨target, others, listed⟩ := List.exists_cons_of_ne_nil some_target
      rw [CommandLine.perform, Renewal.run, loadSettings_eq_ok_iff.mpr loaded]
      simp only [listed]
      rfl
  | list | targets | profiles | view => contradiction

/-- A command that comes to no job leaves the tree. -/
theorem perform_of_no_job (none_made : command.job? root tree = none) :
    (CommandLine.perform command json root time tree).1 = tree := by
  cases command with
  | install choice =>
      cases made : choice.job root tree with
      | error trouble =>
          simp [CommandLine.perform, Presentation.ofRun, Choice.run, made, Run.refused]
      | ok job =>
          rw [job?_install_iff.mpr made] at none_made
          contradiction
  | upgrade options =>
      cases loaded : Settings.load tree root with
      | error failure =>
          simp [CommandLine.perform, Presentation.ofRun, Renewal.run, loadSettings, loaded,
            Run.refused]
      | ok settings =>
          cases listed : Renewal.targets settings root tree with
          | nil =>
              simp [CommandLine.perform, Presentation.ofRun, Renewal.run, loadSettings, loaded,
                listed]
          | cons target others => simp [job?, loaded, listed] at none_made
  | list | targets | profiles | view => rfl

end Command

/-- A command line that comes to no job leaves the tree. Another one installs, shows and records
the targets of its job, which are those that it is for, in their order. It is for no target
twice, unless it is a renewal and the settings name a target twice. -/
theorem targets_of_run
    (asked : Request.ofWords environment words = .run ⟨given, json, command⟩) :
    (command.job? (ProjectRoot.resolve tree given) tree = none ∧
      (CommandLine.run environment words time tree).1 = tree) ∨
    ∃ job run, command.job? (ProjectRoot.resolve tree given) tree = some job ∧
      command.IsFor (ProjectRoot.resolve tree given) tree job.targets ∧
      (job.targets.Nodup ↔ ∀ options settings, command = .upgrade options →
        Settings.load tree (ProjectRoot.resolve tree given) = .ok (some settings) →
        settings.NamesOnce) ∧
      job.Serves (ProjectRoot.resolve tree given) tree run ∧
      CommandLine.run environment words time tree = (run.tree, command.shown json job run) := by
  rw [run_of_asked asked]
  cases made : command.job? (ProjectRoot.resolve tree given) tree with
  | none => exact .inl ⟨rfl, Command.perform_of_no_job made⟩
  | some job =>
      have isFor := Command.isFor_of_job? made
      exact .inr ⟨job, _, rfl, isFor, isFor.nodup_iff, job.serves_run _ time tree,
        Command.perform_of_job? made⟩

namespace CommandLine

/-- A choice that mentions one target twice. -/
def repeatingChoice : Choice := { sampleChoice with tools := ["roo", " Claude ", "ROO"] }

def repeatingWords : List String :=
  ["--root", "a", "install", "-t", "roo", "--tool", " Claude ", "--tool=ROO", "--definitions", "d"]

/-- What is mentioned twice is installed once, in the order of the first mention. -/
theorem targets_of_repeatingWords :
    ∃ (job : Job) (run : Run Installed), job.targets = [.roo, .claude] ∧ job.targets.Nodup ∧
      job.Serves "a" sampleTree run ∧
      CommandLine.run sampleEnvironment repeatingWords sampleTime sampleTree =
        (run.tree, Presentation.installed.output false run.announced run.result) := by
  have asked : Request.ofWords sampleEnvironment repeatingWords =
      .run ⟨some "a", false, .install repeatingChoice⟩ := by decide
  have made : repeatingChoice.job "a" sampleTree =
      .ok { sampleJob with targets := [.roo, .claude] } := by
    rw [Choice.job, loadSettings_eq_ok_iff.mpr (delivered_sample (.inl rfl)).1]
    rfl
  have comes_to := Command.job?_install_iff.mpr made
  rcases targets_of_run asked with ⟨no_job, _⟩ | ⟨job, run, found, _, once, serves, ran⟩
  · exact absurd (comes_to.symm.trans no_job) (Option.some_ne_none _)
  · obtain rfl := Option.some.inj (comes_to.symm.trans found)
    exact ⟨_, run, rfl, once.mpr (by simp), serves, ran⟩

/-! ## Settings that name a target twice -/

/-- A project with one definition whose settings name one target twice. -/
def repeatingTree : Tree where
  entries :=
    [(["d"], .directory), (["d", "x.yaml"], .file (.text Target.twinText)),
     ([".sdd-toolkit"], .directory),
     ([".sdd-toolkit", "config.yaml"], .file (.text "tools: [web, web]\n"))]
  workingDirectory := []

def repeatingSettings : Settings := { Settings.default with tools := ["web", "web"] }

theorem load_repeating {tree : Tree} (there : tree.isThere (Path.join "." Settings.file))
    (read : tree.readText (Path.join "." Settings.file) = .ok "tools: [web, web]\n") :
    Settings.load tree "." = .ok (some repeatingSettings) := by
  have parsed : Yaml.documentOf "tools: [web, web]\n" =
      .ok (some ⟨.mapping .none
        [(.scalar .none .plain "tools".toList,
          .sequence .none [.scalar .none .plain "web".toList,
            .scalar .none .plain "web".toList])], []⟩) := by cbv
  have taken : Settings.ofText "tools: [web, web]\n" = .ok repeatingSettings := by
    rw [Settings.ofText, parsed]
    rfl
  simp only [Settings.load, there, if_true, read, taken]

/-- The job of a renewal of the project. -/
def repeatingJob : Job := { sampleJob with targets := [.web, .web] }

/-- What the renewal of the project tells. -/
def repeatingInstalled : Installed :=
  { sampleInstalled with
    targets := [(.web, [⟨"prompts/x.txt", false⟩]), (.web, [⟨"prompts/x.txt", true⟩])] }

/-- The project with the prompt, which is written twice. -/
def repeatingMiddle : Tree :=
  (deliver "." [prompt] (deliver "." [prompt] repeatingTree).1).1

/-- The settings that the renewal keeps. -/
def repeatingSaved : Settings := repeatingJob.stamp repeatingSettings sampleTime

theorem delivered_repeating :
    repeatingTree.isThere (Path.join "." Settings.file) ∧
      repeatingTree.readText (Path.join "." Settings.file) = .ok "tools: [web, web]\n" ∧
      (deliver "." [prompt] repeatingTree).2 = .ok [⟨"prompts/x.txt", false⟩] ∧
      (deliver "." [prompt] (deliver "." [prompt] repeatingTree).1).2 =
        .ok [⟨"prompts/x.txt", true⟩] ∧
      repeatingMiddle.isThere (Path.join "." Settings.file) ∧
      repeatingMiddle.readText (Path.join "." Settings.file) = .ok "tools: [web, web]\n" ∧
      (deliver "." [repeatingSaved.artifact] repeatingMiddle).2 = .ok [⟨Settings.file, true⟩] ∧
      ((deliver "." [repeatingSaved.artifact] repeatingMiddle).1.readText
        (Path.join "." Settings.file)) = .ok repeatingSaved.toText := by
  decide +kernel

/-- The renewal installs the target twice. -/
theorem run_repeating :
    repeatingJob.run "." sampleTime repeatingTree =
      { tree := (deliver "." [repeatingSaved.artifact] repeatingMiddle).1
        announced := [Phrase.loading.wording .english]
        result := .ok repeatingInstalled } := by
  obtain ⟨_, _, first, second, there, text, kept, _⟩ := delivered_repeating
  have agents : sampleInstalled.roster.agents = [Target.twin "x"] := rfl
  have all : installAll sampleInstalled.roster.agents .english "." repeatingTree [.web, .web] =
      (repeatingMiddle, .ok repeatingInstalled.targets) := by
    rw [agents, installAll_cons_eq_ok_iff]
    refine ⟨(deliver "." [prompt] repeatingTree).1, _, _, ?_, ?_, rfl⟩
    · rw [plan_sample]
      exact Prod.ext rfl first
    · exact installAll_of_sample second
  have loaded : (repeatingJob.loading.request "." .english none).load repeatingTree =
      .ok sampleInstalled.roster :=
    load_of_sample rfl rfl
  exact Job.run_of_steps rfl loaded all (load_repeating there text) (Prod.ext rfl kept)

/-- Settings that name a target twice make a renewal install it, show it and record it twice. -/
theorem repeats_repeatingTree :
    Request.ofWords sampleEnvironment (upgradeWords ".") =
        .run ⟨some ".", false, .upgrade ⟨none, some "d"⟩⟩ ∧
      (Renewal.run ⟨none, some "d"⟩ "." sampleTime repeatingTree).result =
        .ok (.renewed repeatingInstalled) ∧
      ¬ (repeatingInstalled.targets.map (·.1)).Nodup ∧
      (CommandLine.run sampleEnvironment (upgradeWords ".") sampleTime repeatingTree).2 =
        .success
          ["Tools detected: web, web", "Loading definitions...",
           "Installing agents for: OpenAI / Claude (web), OpenAI / Claude (web)",
           "  created: prompts/x.txt", "  updated: prompts/x.txt",
           "Agents updated successfully!"] ∧
      (CommandLine.run sampleEnvironment (upgradeWords ".") sampleTime repeatingTree).1.readText
        (Path.join "." Settings.file) = .ok repeatingSaved.toText ∧
      repeatingSaved.tools = ["web", "web"] := by
  obtain ⟨there, text, _, _, _, _, _, held⟩ := delivered_repeating
  have asked : Request.ofWords sampleEnvironment (upgradeWords ".") =
      .run ⟨some ".", false, .upgrade ⟨none, some "d"⟩⟩ := by decide
  have renewed : Renewal.run ⟨none, some "d"⟩ "." sampleTime repeatingTree =
      Renewal.runJob repeatingJob "." sampleTime repeatingTree := by
    rw [Renewal.run, loadSettings_eq_ok_iff.mpr (load_repeating there text)]
    rfl
  have ran : CommandLine.run sampleEnvironment (upgradeWords ".") sampleTime repeatingTree =
      Presentation.renewal.ofRun false
        (Renewal.runJob repeatingJob "." sampleTime repeatingTree) :=
    (run_of_asked asked).trans (congrArg (Presentation.renewal.ofRun false) renewed)
  rw [ran, renewed, Renewal.runJob, run_repeating]
  refine ⟨asked, rfl, by decide, ?_, held, rfl⟩
  decide +kernel

end CommandLine

end AgentKit
