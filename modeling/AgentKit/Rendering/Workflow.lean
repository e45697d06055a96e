/-
# Workflows

Kilo Code and Cline read the same workflow, apart from the comment on its first
line.
-/

import AgentKit.Rendering.Persona

namespace AgentKit.Rendering

/-- The first line of a workflow for Kilo Code. -/
def kiloHeader : String := "<!--- Kilo Code Agent Config --->"

/-- The first line of a workflow for Cline. -/
def clineHeader : String := "<!--- Cline Agent Config --->"

/-- The workflow of an agent under a first line. -/
def workflow (agent : Agent) (header : String) : String :=
  Document.empty
    |>.line header
    |>.blank
    |>.heading 1 (title agent)
    |>.blank
    |>.line ("**Role**: " ++ agent.role)
    |>.blank
    |>.heading 2 "Instructions"
    |>.block agent.systemPrompt
    |>.blank
    |>.bulletSection "## Constraints" agent.rules
    |>.render

end AgentKit.Rendering
