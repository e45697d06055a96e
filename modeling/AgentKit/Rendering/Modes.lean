/-
# The manifest of modes

Roo Code and Cline read one JSON document that lists every agent as a mode. Every
mode has the same tool permissions, and its role definition holds the instructions
and rules of the agent.
-/

import AgentKit.Agent
import AgentKit.Json
import AgentKit.Rendering.Persona
import AgentKit.Text.Blank

namespace AgentKit.Rendering

/-- The tool permissions of a mode. -/
def modeGroups : List String := ["read", "edit", "browser", "command", "mcp"]

/-- The rules in the role definition of a mode. Without rules there are none. -/
def modeRules (rules : List String) : String :=
  if rules.isEmpty then ""
  else "\n\n## Rules & Guidelines" ++ String.join (rules.map ("\n- " ++ ·))

/-- The role definition of a mode. -/
def roleDefinition (agent : Agent) : String :=
  "# " ++ agent.name ++ " (" ++ agent.role ++ ")\n\n" ++ Text.trimmed agent.systemPrompt ++
    modeRules agent.rules

/-- The mode of an agent. -/
def mode (agent : Agent) : Json :=
  .object
    [("slug", .string agent.slug),
     ("name", .string (agent.emoji ++ " " ++ agent.name)),
     ("roleDefinition", .string (roleDefinition agent)),
     ("groups", .ofStrings modeGroups)]

/-- The manifest of a list of agents, in the order of the list. -/
def modeManifest (agents : List Agent) : String :=
  (Json.object [("customModes", .array (agents.map mode))]).write ++ "\n"

end AgentKit.Rendering
