/-
# Instructions of GitHub Copilot

The instructions end in a section on the style of replies, whose last item is the
language rule.
-/

import AgentKit.Locale
import AgentKit.Rendering.Persona

namespace AgentKit.Rendering

/-- The instructions of an agent. -/
def copilotInstructions (agent : Agent) (locale : Locale) : String :=
  Document.empty
    |>.line ("<!-- GitHub Copilot Instructions for " ++ agent.name ++ " -->")
    |>.blank
    |>.heading 1 "Identity and Role"
    |>.line ("You are " ++ boldTitle agent ++ ".")
    |>.line ("**Role**: " ++ agent.role)
    |>.blank
    |>.heading 2 "Core Instructions"
    |>.block agent.systemPrompt
    |>.blank
    |>.bulletSection "## Rules & Guidelines" agent.rules
    |>.heading 2 "Response Style"
    |>.line "- Be concise and objective."
    |>.line "- Follow the conventions already present in the project."
    |>.line ("- " ++ locale.languageRule)
    |>.render

end AgentKit.Rendering
