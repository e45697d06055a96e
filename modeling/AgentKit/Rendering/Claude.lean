/-
# Commands and subagents of Claude Code

A command is a prompt that ends in a place for the request of the user. A
subagent is the persona of an agent; it lists the tools of the agent only when
the agent declares some.
-/

import AgentKit.Rendering.Persona
import AgentKit.Yaml.FrontmatterScalar

namespace AgentKit.Rendering

/-- The place of the request in a command. -/
def requestPlace : String := "$ARGUMENTS"

/-- The command of an agent. -/
def claudeCommand (agent : Agent) : String :=
  Document.empty
    |>.frontmatter
      [("description", Yaml.frontmatterScalar agent.summary),
       ("argument-hint", Yaml.frontmatterScalar "[task or question]")]
    |>.blank
    |>.line ("You are " ++ boldTitle agent ++ ", acting as " ++ agent.role ++ ".")
    |>.blank
    |>.heading 2 "Instructions"
    |>.block agent.systemPrompt
    |>.blank
    |>.bulletSection "## Rules" agent.rules
    |>.heading 2 "Task"
    |>.blank
    |>.line requestPlace
    |>.render

/-- The field that lists the tools of an agent, if it declares any. -/
def toolsField (agent : Agent) : List (String × String) :=
  if agent.tools.isEmpty then []
  else [("tools", Yaml.frontmatterScalar (", ".intercalate agent.tools))]

/-- The subagent of an agent. -/
def claudeSubagent (agent : Agent) : String :=
  let fields :=
    [("name", agent.skillName), ("description", Yaml.frontmatterScalar agent.summary)]
  (persona (Document.empty.frontmatter (fields ++ toolsField agent)) agent).render

end AgentKit.Rendering
