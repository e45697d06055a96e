/-
# Plain prompts

A plain prompt is pasted into the chat of an assistant by hand. It has no markup.
-/

import AgentKit.Rendering.Persona

namespace AgentKit.Rendering

/-- The plain prompt of an agent. -/
def plainPrompt (agent : Agent) : String :=
  Document.empty
    |>.line ("You are " ++ title agent)
    |>.line ("Role: " ++ agent.role)
    |>.blank
    |>.line "[SYSTEM INSTRUCTIONS]"
    |>.block agent.systemPrompt
    |>.blank
    |>.bulletSection "[GUIDELINES]" agent.rules
    |>.render

end AgentKit.Rendering
