/-
# What performing shows

The exit code tells whether a run has ended with a result, however the run is shown. What
a command line leaves is what its invocation leaves.
-/

import AgentKit.CommandLine.Performance

namespace AgentKit.CommandLine

variable {environment : Environment} {words : List String} {invocation : Invocation}
  {time : Timestamp} {tree : Files.Tree} {root : Option Path} {json : Bool} {choice : Choice}

theorem exitCode_output {α : Type} {presentation : Presentation α} {announced : List String}
    {result : Except Trouble α} :
    (presentation.output json announced result).exitCode = 0 ↔ ∃ value, result = .ok value := by
  unfold Presentation.output
  cases result with
  | error trouble => simp [Output.failure]
  | ok value => cases json <;> simp [Output.success]

/-- The exit code one tells that a run has ended in trouble, and the trouble is shown. -/
theorem trouble_of_exitCode {α : Type} {presentation : Presentation α} {announced : List String}
    {result : Except Trouble α}
    (failed : (presentation.output json announced result).exitCode = 1) :
    ∃ trouble, result = .error trouble ∧
      (presentation.output json announced result).trouble =
        Output.textOf ["error: " ++ trouble.message] := by
  cases result with
  | error trouble => exact ⟨trouble, rfl, rfl⟩
  | ok value => cases json <;> simp [Presentation.output, Output.success] at failed

theorem run_of_asked (asked : Request.ofWords environment words = .run invocation) :
    CommandLine.run environment words time tree = invocation.perform time tree := by
  rw [CommandLine.run, asked, Request.perform]

/-- A command line that asks for an installation leaves what the run of its choice leaves, and
it succeeds if the run ends with a result. -/
theorem run_of_install
    (asked : Request.ofWords environment words = .run ⟨root, json, .install choice⟩) :
    (CommandLine.run environment words time tree).1 =
        (choice.run (ProjectRoot.resolve tree root) time tree).tree ∧
      ((CommandLine.run environment words time tree).2.exitCode = 0 ↔
        ∃ installed,
          (choice.run (ProjectRoot.resolve tree root) time tree).result = .ok installed) := by
  rw [run_of_asked asked]
  exact ⟨rfl, exitCode_output⟩

end AgentKit.CommandLine
