/-
# Rules of a whole workspace

Windsurf and Trae read a single file of rules for a workspace.
-/

import AgentKit.Rendering.Persona

namespace AgentKit.Rendering

/-- The rules of an agent for Windsurf. -/
def windsurfRules (agent : Agent) : String :=
  Document.empty
    |>.heading 1 (title agent ++ " Rules")
    |>.line ("Role: " ++ agent.role)
    |>.blank
    |>.heading 2 "Core Logic"
    |>.block agent.systemPrompt
    |>.blank
    |>.bulletSection "## Guidelines" agent.rules
    |>.render

/-- The rules of an agent for Trae. -/
def traeRules (agent : Agent) : String :=
  Document.empty
    |>.line "<!-- Trae Workspace Rules -->"
    |>.heading 1 (title agent)
    |>.line ("**Role**: " ++ agent.role)
    |>.blank
    |>.heading 2 "Context & Instructions"
    |>.block agent.systemPrompt
    |>.blank
    |>.bulletSection "## Constraints" agent.rules
    |>.render

end AgentKit.Rendering
