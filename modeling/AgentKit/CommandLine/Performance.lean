/-
# Performance of requests

A request is performed on a file tree. What is shown goes to two channels, one for
reports and one for trouble, and an exit code says how it ended: zero for success, one
for trouble, two for a command line that was refused.
-/

import AgentKit.CommandLine.Help
import AgentKit.CommandLine.Request
import AgentKit.ProjectRoot
import AgentKit.Report.Catalogue
import AgentKit.Report.Installed
import AgentKit.Report.Overview

namespace AgentKit.CommandLine

/-- What a program leaves on its channels, and its exit code. -/
structure Output where
  exitCode : Nat
  report : String
  trouble : String
  deriving DecidableEq, Repr

namespace Output

/-- The text of lines, each with its end. -/
def textOf (lines : List String) : String :=
  String.join (lines.map (· ++ "\n"))

/-- The output of a success with some lines. -/
def success (lines : List String) : Output where
  exitCode := 0
  report := textOf lines
  trouble := ""

/-- The output of trouble after some lines. -/
def failure (lines : List String) (trouble : Trouble) : Output where
  exitCode := 1
  report := textOf lines
  trouble := textOf ["error: " ++ trouble.message]

end Output

/-- How a result is shown: as lines or as one JSON document. -/
structure Presentation (α : Type) where
  lines : α → List String
  document : α → Json

namespace Presentation

/-- The output of a run. Announcements belong to the lines; with a document they are
left out. -/
def output {α : Type} (presentation : Presentation α) (json : Bool) (announced : List String)
    (result : Except Trouble α) : Output :=
  let announced := if json then [] else announced
  match result with
  | .error trouble => .failure announced trouble
  | .ok value =>
    if json then .success [(presentation.document value).write]
    else .success (announced ++ presentation.lines value)

/-- The presentation of installations. -/
def installed : Presentation Installed := ⟨Installed.lines .finished, Installed.document⟩

/-- The presentation of renewals. -/
def renewal : Presentation Renewal := ⟨Renewal.lines, Renewal.document⟩

/-- The presentation of listings. -/
def listing : Presentation Listing :=
  ⟨fun listing => listing.roster.lines listing.locale, fun listing => listing.roster.document⟩

/-- The presentation of overviews. -/
def overview : Presentation Overview := ⟨Overview.lines, Overview.document⟩

/-- The presentation of the targets. -/
def targets : Presentation (List Target) :=
  ⟨fun targets => (Target.table targets).lines,
    fun targets => .array (targets.map Target.document)⟩

/-- The presentation of the stack profiles. -/
def profiles : Presentation (List StackProfile) :=
  ⟨fun profiles => (StackProfile.table profiles).lines,
    fun profiles => .array (profiles.map StackProfile.document)⟩

/-- The tree and the output that a run leaves. -/
def ofRun {α : Type} (presentation : Presentation α) (json : Bool) (run : Run α) :
    Files.Tree × Output :=
  (run.tree, presentation.output json run.announced run.result)

end Presentation

/-- Run a command for the project below a root. -/
def perform (command : Command) (json : Bool) (root : Path) (time : Timestamp)
    (tree : Files.Tree) : Files.Tree × Output :=
  match command with
  | .install choice => Presentation.installed.ofRun json (choice.run root time tree)
  | .upgrade options => Presentation.renewal.ofRun json (Renewal.run options root time tree)
  | .list options => (tree, Presentation.listing.output json [] (options.list root tree))
  | .targets => (tree, Presentation.targets.output json [] (.ok Target.all))
  | .profiles => (tree, Presentation.profiles.output json [] (.ok StackProfile.all))
  | .view => (tree, Presentation.overview.output json [] (Overview.ofProject root tree))

namespace Invocation

/-- Run the command of an invocation. -/
def perform (invocation : Invocation) (time : Timestamp) (tree : Files.Tree) :
    Files.Tree × Output :=
  CommandLine.perform invocation.command invocation.json
    (ProjectRoot.resolve tree invocation.root) time tree

end Invocation

/-- The line that shows the version. -/
def versionLine (verb : Option Verb) : String :=
  programName ++ (verb.map ("-" ++ ·.name)).getD "" ++ " " ++ toolkitVersion

namespace Request

/-- Perform a request. -/
def perform (request : Request) (time : Timestamp) (tree : Files.Tree) : Files.Tree × Output :=
  match request with
  | .help verb => (tree, .success (helpLines verb))
  | .version verb => (tree, .success [versionLine verb])
  | .refused verb refusal =>
    (tree,
      { exitCode := 2
        report := ""
        trouble := Output.textOf (refusalLines verb refusal) })
  | .run invocation => invocation.perform time tree

end Request

/-- Read a command line and do what it asks for. -/
def run (environment : Environment) (words : List String) (time : Timestamp)
    (tree : Files.Tree) : Files.Tree × Output :=
  (Request.ofWords environment words).perform time tree

end AgentKit.CommandLine
