/-
# Command lines that fail

A command line that exits with the code one has run a command that ended in trouble, and
the settings file is as it was: the command has not recorded itself. Where the trouble is
found early, or where the settings cannot be loaded, the whole tree is as it was.

The root must be steady for the second part of this. A root that is looked for always is;
but below one that is given and leads upwards through a missing directory, the settings
that nobody can load are found only after the targets were installed.
-/

import AgentKit.Proofs.Command.Failing
import AgentKit.Proofs.CommandLine.Upgrade

namespace AgentKit

open Files (Tree)

/-- How a command ends for the project below a root. -/
def Command.ending (command : Command) (root : Path) (time : Timestamp) (tree : Tree) :
    Except Trouble Unit :=
  match command with
  | .install choice => (choice.run root time tree).result.map fun _ => ()
  | .upgrade options => (Renewal.run options root time tree).result.map fun _ => ()
  | .list options => (options.list root tree).map fun _ => ()
  | .targets => .ok ()
  | .profiles => .ok ()
  | .view => (Overview.ofProject root tree).map fun _ => ()

namespace CommandLine

variable {environment : Environment} {words : List String} {time : Timestamp} {before : Tree}
  {command : Command} {json : Bool} {root : Path}

/-- A command that exits with one has failed in one of the known ways. -/
theorem fails_of_perform (failed : (perform command json root time before).2.exitCode = 1) :
    ∃ trouble, command.ending root time before = .error trouble ∧
      (perform command json root time before).2.trouble =
        Output.textOf ["error: " ++ trouble.message] ∧
      Fails root before trouble (perform command json root time before).1 := by
  cases command with
  | install choice =>
      obtain ⟨trouble, ended, shown⟩ := trouble_of_exitCode failed
      exact ⟨trouble, by simp [Command.ending, ended, Except.map], shown,
        Choice.fails_of_run ended⟩
  | upgrade options =>
      obtain ⟨trouble, ended, shown⟩ := trouble_of_exitCode failed
      exact ⟨trouble, by simp [Command.ending, ended, Except.map], shown,
        Renewal.fails_of_run ended⟩
  | list options =>
      obtain ⟨trouble, ended, shown⟩ := trouble_of_exitCode failed
      exact ⟨trouble, by simp [Command.ending, ended, Except.map], shown,
        LoadOptions.fails_of_list ended⟩
  | view =>
      obtain ⟨trouble, ended, shown⟩ := trouble_of_exitCode failed
      exact ⟨trouble, by simp [Command.ending, ended, Except.map], shown,
        Overview.fails_of_ofProject ended⟩
  | targets | profiles =>
      obtain ⟨trouble, ended, _⟩ := trouble_of_exitCode failed
      contradiction

/-- A command line that exits with one is not recorded: the settings file has the bytes that
it had. Early trouble leaves the whole tree as it was, and so do settings that cannot be
loaded below a steady root, as every root is that is looked for. -/
theorem unrecorded_of_exitCode
    (failed : (CommandLine.run environment words time before).2.exitCode = 1) :
    ∃ invocation trouble root, Request.ofWords environment words = .run invocation ∧
      root = ProjectRoot.resolve before invocation.root ∧
      (invocation.root = none → before.Steady root) ∧
      invocation.command.ending root time before = .error trouble ∧
      (CommandLine.run environment words time before).2.trouble =
        Output.textOf ["error: " ++ trouble.message] ∧
      Unrecorded root trouble before (CommandLine.run environment words time before).1 := by
  cases asked : Request.ofWords environment words with
  | run invocation =>
      rw [run_of_asked asked] at failed ⊢
      obtain ⟨trouble, ended, shown, fails⟩ := fails_of_perform failed
      refine ⟨invocation, trouble, _, rfl, rfl, fun searched => ?_, ended, shown, fails.unrecorded⟩
      exact ProjectRoot.steady_resolve (by simp [searched])
  | help | version | refused =>
      rw [CommandLine.run, asked] at failed
      simp [Request.perform, Output.success] at failed

/-! ## Settings that nobody can load -/

/-- A tree with one definition, and with settings below `b` that are no document. -/
def brokenTree : Tree where
  entries :=
    [(["d"], .directory), (["d", "x.yaml"], .file (.text Target.twinText)), (["b"], .directory),
     (["b", ".sdd-toolkit"], .directory),
     (["b", ".sdd-toolkit", "config.yaml"], .file (.text "["))]
  workingDirectory := []

theorem load_broken {root : Path} {tree : Tree} (there : tree.isThere (root.join Settings.file))
    (read : tree.readText (root.join Settings.file) = .ok "[") :
    Settings.load tree root = .error (.settings .unexpectedToken) := by
  have parsed : Yaml.documentOf "[" = .error .unexpectedToken := by cbv
  have refused : Settings.ofText "[" = .error .unexpectedToken := by
    rw [Settings.ofText, parsed]
    rfl
  simp only [Settings.load, there, if_true, read, refused]

/-- Below a root that is there, the settings are found first, and nothing is written. -/
theorem unrecorded_broken :
    (CommandLine.run sampleEnvironment (installWords "b") sampleTime brokenTree).2.exitCode = 1 ∧
      (CommandLine.run sampleEnvironment (installWords "b") sampleTime brokenTree).1 =
        brokenTree := by
  have asked : Request.ofWords sampleEnvironment (installWords "b") =
      .run ⟨some "b", false, .install sampleChoice⟩ := by decide
  have loaded : Settings.load brokenTree "b" = _ := load_broken (by decide +kernel)
    (by decide +kernel)
  have ran : sampleChoice.run "b" sampleTime brokenTree =
      .refused brokenTree ⟨some .loadingSettings, .settings .unexpectedToken⟩ := by
    rw [Choice.run, Choice.job, loadSettings, loaded]
    rfl
  have failed : (CommandLine.run sampleEnvironment (installWords "b") sampleTime
      brokenTree).2.exitCode = 1 := by
    rw [run_of_asked asked]
    exact congrArg (fun run => (Presentation.installed.ofRun false run).2.exitCode) ran
  refine ⟨failed, ?_⟩
  obtain ⟨invocation, trouble, _, asked', rfl, _, ended, _, unrecorded⟩ :=
    unrecorded_of_exitCode failed
  obtain rfl := Request.run.inj (asked.symm.trans asked')
  have task : trouble.task = some .loadingSettings := by
    have result := congrArg Run.result ran
    simp only [Command.ending, ProjectRoot.resolve, result, Run.refused, Except.map,
      Except.error.injEq] at ended
    rw [← ended]
  exact unrecorded.settings task (.inr (by decide))

/-- Below a root that leads upwards out of a missing directory, the same settings are found
only after the prompt was written. -/
theorem unloadable_above_missing :
    ∃ after output,
      CommandLine.run sampleEnvironment (installWords "a/../b") sampleTime brokenTree =
        (after, output) ∧
      output.exitCode = 1 ∧
      (Command.install sampleChoice).ending "a/../b" sampleTime brokenTree =
        .error ⟨some .loadingSettings, .settings .unexpectedToken⟩ ∧
      brokenTree.find? ["b", "prompts", "x.txt"] = none ∧
      after.find? ["b", "prompts", "x.txt"] = some (.file (.text prompt.content)) ∧
      brokenTree.isThere (Path.join "a/../b" Settings.file) = false ∧
      after.isThere (Path.join "a/../b" Settings.file) = true := by
  have asked := (asked_sample (.inr rfl : ("a/../b" : Path) = "a" ∨ _)).1
  have unsettled : Settings.load brokenTree "a/../b" = .ok none := by decide +kernel
  have roster : sampleJob.loading.loadRoster "a/../b" sampleJob.locale none brokenTree =
      .ok sampleInstalled.roster := LoadOptions.loadRoster_eq_ok_iff.mpr (load_of_sample rfl rfl)
  have written : (deliver "a/../b" [prompt] brokenTree).2 = .ok [⟨"prompts/x.txt", false⟩] := by
    decide +kernel
  have all : installAll sampleInstalled.roster.agents sampleJob.locale "a/../b" brokenTree
      sampleJob.targets = _ := installAll_of_sample written
  have found : (deliver "a/../b" [prompt] brokenTree).1.isThere
      (Path.join "a/../b" Settings.file) = true := by decide +kernel
  have stuck := load_broken found (by decide +kernel)
  have recorded : sampleJob.record "a/../b" sampleTime (deliver "a/../b" [prompt] brokenTree).1 =
      ((deliver "a/../b" [prompt] brokenTree).1,
        .error ⟨some .loadingSettings, .settings .unexpectedToken⟩) := by
    rw [Job.record, loadSettings, stuck]
  have carried : sampleJob.carryOut "a/../b" sampleTime none brokenTree =
      ((deliver "a/../b" [prompt] brokenTree).1,
        .error ⟨some .loadingSettings, .settings .unexpectedToken⟩) := by
    simp only [Job.carryOut, roster, all, recorded]
  have ran := Job.run_of_carryOut rfl carried
  have chosen : sampleChoice.run "a/../b" sampleTime brokenTree =
      sampleJob.run "a/../b" sampleTime brokenTree := by
    rw [Choice.run, job_of_sample unsettled]
  have performed : CommandLine.run sampleEnvironment (installWords "a/../b") sampleTime brokenTree =
      Presentation.installed.ofRun false
        (sampleChoice.run "a/../b" sampleTime brokenTree) := run_of_asked asked
  rw [chosen, ran] at performed
  refine ⟨_, _, performed, rfl, ?_, by decide, by decide +kernel, by decide +kernel, found⟩
  simp only [Command.ending, chosen, ran, Except.map]

end CommandLine

end AgentKit
