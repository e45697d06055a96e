/-
# Commands of the Gemini command line

A command is a TOML document with a description, a prompt and, where the agent
has rules, the list of rules. The prompt is written between triple quotes.
-/

import AgentKit.Document.Quoted
import AgentKit.Rendering.Persona

namespace AgentKit.Rendering

/-- The prompt of a command. -/
def geminiPrompt (agent : Agent) : String :=
  Document.empty
    |>.heading 1 "Identity"
    |>.line ("You are " ++ boldTitle agent)
    |>.line ("Role: " ++ agent.role)
    |>.blank
    |>.heading 1 "Core Instructions"
    |>.block agent.systemPrompt
    |>.blank
    |>.bulletSection "# Rules & Guidelines" agent.rules
    |>.render

/-- The list of rules of a command. Without rules there is no list. -/
def geminiRules (rules : List String) : String :=
  if rules.isEmpty then ""
  else
    "\nrules = [\n" ++ String.join (rules.map fun rule => "  " ++ Document.quoted rule ++ ",\n") ++
      "]\n"

/-- The command of an agent. -/
def geminiCommand (agent : Agent) : String :=
  "description = " ++ Document.quoted agent.summary ++ "\n\nprompt = \"\"\"\n" ++
    String.ofList (Document.escapeMultiline (geminiPrompt agent).toList) ++ "\"\"\"\n" ++
    geminiRules agent.rules

end AgentKit.Rendering
