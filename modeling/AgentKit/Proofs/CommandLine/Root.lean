/-
# The root after command lines

Where no root is given, it is looked for, and then it stays the same: from every directory
between the root and the working directory, and after every command line that succeeds. An
installation or an upgrade that carries out its job makes a directory of the toolkit at the root
and nothing between; any other command leaves the tree. So it does not matter whether the root was
found by such a directory or by a repository, or was the working directory for want of both.
-/

import AgentKit.Proofs.Command.Root
import AgentKit.Proofs.CommandLine.Targets

namespace AgentKit

open Files (Tree Location)
open CommandLine (Environment Request run_of_asked exitCode_output)

variable {environment : Environment} {words : List String} {command : Command} {json : Bool}
  {job : Job} {time : Timestamp} {before : Tree} {installation : Run Installed}

/-- A run of a job that is shown as a success has ended with a result. -/
theorem Command.exists_installed (done : (command.shown json job installation).exitCode = 0) :
    ∃ installed, installation.result = .ok installed := by
  unfold shown at done
  split at done
  · obtain ⟨renewal, ended⟩ := exitCode_output.mp done
    cases result : installation.result with
    | error trouble =>
        rw [result] at ended
        contradiction
    | ok installed => exact ⟨installed, rfl⟩
  · exact exitCode_output.mp done

namespace CommandLine

/-- A command that succeeds below the root that was found leaves it where it is. -/
theorem resolve_of_perform
    (done : (perform command json (ProjectRoot.resolve before none) time before).2.exitCode = 0) :
    (perform command json (ProjectRoot.resolve before none) time before).1.current =
        before.current ∧
      ProjectRoot.resolve
          (perform command json (ProjectRoot.resolve before none) time before).1 none =
        ProjectRoot.resolve before none := by
  cases made : command.job? (ProjectRoot.resolve before none) before with
  | none =>
      rw [Command.perform_of_no_job made]
      exact ⟨rfl, rfl⟩
  | some job =>
      rw [Command.perform_of_job? made] at done ⊢
      obtain ⟨installed, ended⟩ := Command.exists_installed done
      exact job.resolve_of_run ended

/-- The root that is found without being given is a directory on the way to the working
directory. It is the root for every directory between, and still is after every command line
without a root that succeeds, such as one that installs or upgrades. -/
theorem root_stays (before : Tree) :
    ∃ base, ProjectRoot.resolve before none = Path.ofPlace base ∧ base <+: before.current ∧
      (∀ place, base <+: place → place <+: before.current →
        ProjectRoot.resolve (before.enter place) none = ProjectRoot.resolve before none) ∧
      ∀ environment words time invocation, Request.ofWords environment words = .run invocation →
        invocation.root = none → (run environment words time before).2.exitCode = 0 →
        (run environment words time before).1.current = before.current ∧
          ProjectRoot.resolve (run environment words time before).1 none =
            ProjectRoot.resolve before none ∧
          ∀ place, base <+: place → place <+: before.current →
            ProjectRoot.resolve ((run environment words time before).1.enter place) none =
              ProjectRoot.resolve before none := by
  obtain ⟨base, above, root⟩ :=
    ProjectRoot.exists_above_eq before (Tree.isName_of_find? before.find?_current)
  rw [← Tree.workingPath_eq_ofPlace] at root
  refine ⟨base, root, above, fun place => ProjectRoot.resolve_enter_of_between root, ?_⟩
  intro environment words time invocation asked searched done
  rw [run_of_asked asked, Invocation.perform, searched] at done ⊢
  obtain ⟨current, same⟩ := resolve_of_perform done
  refine ⟨current, same, ?_⟩
  intro place behind ahead
  rw [← current] at ahead
  rw [ProjectRoot.resolve_enter_of_between (same.trans root) behind ahead, same]

/-! ## A project that is found by its repository -/

/-- A repository, and a definition in a directory of it. -/
def repositoryTree : Tree where
  entries :=
    [(["p"], .directory), (["p", ".git"], .directory), (["p", "q"], .directory),
     (["p", "q", "r"], .directory), (["p", "q", "r", "d"], .directory),
     (["p", "q", "r", "d", "x.yaml"], .file (.text Target.twinText))]
  workingDirectory := ["p", "q", "r"]

def rootlessWords : List String :=
  ["install", "--tool", "web", "--definitions", "d"]

/-- The repository is the root, and an installation there succeeds. -/
theorem install_repository :
    ProjectRoot.resolve repositoryTree none = "/p" ∧
      Request.ofWords sampleEnvironment rootlessWords =
        .run ⟨none, false, .install sampleChoice⟩ ∧
      (run sampleEnvironment rootlessWords sampleTime repositoryTree).2.exitCode = 0 := by
  have root : ProjectRoot.resolve repositoryTree none = "/p" := by decide +kernel
  have asked : Request.ofWords sampleEnvironment rootlessWords =
      .run ⟨none, false, .install sampleChoice⟩ := by decide
  obtain ⟨unsettled, written, still, kept⟩ :
      Settings.load repositoryTree "/p" = .ok none ∧
        (deliver "/p" [prompt] repositoryTree).2 = .ok [⟨"prompts/x.txt", false⟩] ∧
        Settings.load (deliver "/p" [prompt] repositoryTree).1 "/p" = .ok none ∧
        (deliver "/p" [sampleSettings.artifact] (deliver "/p" [prompt] repositoryTree).1).2 =
          .ok [⟨Settings.file, false⟩] := by
    decide +kernel
  have ran := run_of_sample unsettled (load_of_sample rfl rfl) written still kept
  refine ⟨root, asked, ?_⟩
  rw [run_of_asked asked, Invocation.perform]
  simp only [root]
  exact exitCode_output.mpr ⟨_, congrArg Run.result ran⟩

/-- The repository is the root also from a directory between, before and after the
installation. -/
theorem root_stays_repository :
    (run sampleEnvironment rootlessWords sampleTime repositoryTree).2.exitCode = 0 ∧
      ProjectRoot.resolve (repositoryTree.enter ["p", "q"]) none = "/p" ∧
      ProjectRoot.resolve
        (run sampleEnvironment rootlessWords sampleTime repositoryTree).1 none = "/p" ∧
      ProjectRoot.resolve
        ((run sampleEnvironment rootlessWords sampleTime repositoryTree).1.enter ["p", "q"])
        none = "/p" := by
  obtain ⟨root, asked, done⟩ := install_repository
  obtain ⟨base, found, above, between, stays⟩ := root_stays repositoryTree
  have current : repositoryTree.current = ["p", "q", "r"] := by decide
  rw [current] at above between stays
  have place : base = ["p"] := by
    have path : Path.ofPlace ["p"] = "/p" := rfl
    apply Path.ofPlace_inj _ (by decide) (found.symm.trans (root.trans path.symm))
    intro part member
    have known : ∀ part ∈ ["p", "q", "r"], Files.isName part := by decide
    exact known part (above.subset member)
  subst place
  obtain ⟨_, same, after⟩ := stays _ _ _ _ asked rfl done
  rw [root] at between same after
  exact ⟨done, between ["p", "q"] (by decide) (by decide), same,
    after ["p", "q"] (by decide) (by decide)⟩

end CommandLine

end AgentKit
