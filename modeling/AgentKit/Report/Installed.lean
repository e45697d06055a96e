/-
# Reports about installations

An installation is shown as lines in the language of its agents, or as one JSON
document. Both tell what was skipped and, for every target in order, which files were
created or updated; without agents the lines stop at saying so.
-/

import AgentKit.Command.Renewal
import AgentKit.Report.Roster

namespace AgentKit

/-- The line of a delivered file. -/
def Delivered.line (delivered : Delivered) : String :=
  "  " ++ delivered.verb ++ ": " ++ delivered.path

/-- A delivered file as a JSON value. -/
def Delivered.document (delivered : Delivered) : Json :=
  .object [("existed", .bool delivered.existed), ("path", .string delivered.path)]

namespace Installed

/-- The line about skipped files, if there are any. -/
def skippedLines (installed : Installed) : List String :=
  match installed.roster.skipped with
  | [] => []
  | skipped =>
    [Phrase.skipped.render installed.locale [("count", toString skipped.length)]]

/-- The names of the installed targets. -/
def labels (installed : Installed) : String :=
  ", ".intercalate (installed.targets.map (·.1.label))

/-- The lines of all delivered files. -/
def deliveredLines (installed : Installed) : List String :=
  installed.targets.flatMap fun (_, delivered) => delivered.map (·.line)

/-- The reminder that some targets need settings of their own. -/
def noticeLines (installed : Installed) : List String :=
  if installed.targets.any (·.1.hasModeManifest) then
    [Phrase.customModesNotice.wording installed.locale]
  else []

/-- The lines that show an installation. The last is a closing phrase. -/
def lines (closing : Phrase) (installed : Installed) : List String :=
  installed.skippedLines ++
    if installed.roster.agents.isEmpty then [Phrase.noAgents.wording installed.locale]
    else
      Phrase.installing.render installed.locale [("tools", installed.labels)] ::
        (installed.deliveredLines ++ installed.noticeLines ++
          [closing.wording installed.locale])

/-- An installed target with its files as a JSON value. -/
def targetDocument (target : Target) (delivered : List Delivered) : Json :=
  .object
    [("files", .array (delivered.map Delivered.document)), ("target", .string target.key)]

/-- An installation as a JSON document. -/
def document (installed : Installed) : Json :=
  .object
    [("agents", .number installed.roster.agents.length),
     ("locale", .string installed.locale.key),
     ("skipped", installed.roster.skippedDocument),
     ("targets", .array (installed.targets.map fun (target, delivered) =>
       targetDocument target delivered))]

end Installed

namespace Renewal

/-- The lines that show what came of a renewal. -/
def lines : Renewal → List String
  | .nothing locale => [Phrase.nothingToUpgrade.wording locale]
  | .renewed installed => installed.lines .upgraded

/-- What came of a renewal, as a JSON document. -/
def document : Renewal → Json
  | .nothing _ => .object [("targets", .array [])]
  | .renewed installed => installed.document

end Renewal

end AgentKit
