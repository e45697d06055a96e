/-
# Reports about rosters

A roster is shown as a table with a line for every agent, followed by the skipped
files with the reasons, or as a JSON document with the agents in full. The members of
JSON objects are in alphabetical order.
-/

import AgentKit.Json
import AgentKit.Phrase
import AgentKit.Report.Table
import AgentKit.Roster

namespace AgentKit

/-- An agent as a JSON value. -/
def Agent.document (agent : Agent) : Json :=
  .object <|
    (agent.description.toList.map fun text => ("description", .string text)) ++
      [("emoji", .string agent.emoji), ("name", .string agent.name),
       ("original_name", .string agent.stem), ("role", .string agent.role),
       ("rules", .ofStrings agent.rules), ("slug", .string agent.slug),
       ("source", .string agent.source.key), ("system_prompt", .string agent.systemPrompt),
       ("tools", .ofStrings agent.tools)]

namespace Roster

/-- The row of an agent. -/
def row (agent : Agent) : List String :=
  [agent.slug, agent.emoji ++ " " ++ agent.name, agent.role, agent.source.key,
   toString agent.rules.length]

/-- The agents as a table. -/
def table (roster : Roster) : Table where
  titles := ["SLUG", "NAME", "ROLE", "SOURCE", "RULES"]
  rows := (agents roster).map row

/-- The line of a skipped file. -/
def skippedLine (file : String) (reason : SkipReason) : String :=
  "skipped: " ++ file ++ " (" ++ reason.message ++ ")"

/-- The lines that show a roster. -/
def lines (locale : Locale) (roster : Roster) : List String :=
  (if (agents roster).isEmpty then [Phrase.noAgents.wording locale]
    else (table roster).lines) ++
    (skipped roster).map fun (file, reason) => skippedLine file reason

/-- The skipped files as a JSON value. -/
def skippedDocument (roster : Roster) : Json :=
  .array <| (skipped roster).map fun (file, reason) =>
    .object [("file", .string file), ("reason", .string reason.message)]

/-- A roster as a JSON document. -/
def document (roster : Roster) : Json :=
  .object
    [("agents", .array ((agents roster).map Agent.document)),
     ("skipped", skippedDocument roster)]

end Roster

end AgentKit
