/-
# The persona of an agent

Parts that several renderings share: the title of an agent and the body that
introduces it in the second person.
-/

import AgentKit.Agent
import AgentKit.Document

namespace AgentKit.Rendering

/-- The name of an agent with its emoji. -/
def title (agent : Agent) : String :=
  agent.name ++ " " ++ agent.emoji

/-- The name of an agent in bold type, with its emoji. -/
def boldTitle (agent : Agent) : String :=
  "**" ++ agent.name ++ "** " ++ agent.emoji

/-- Introduce an agent: who it is, its instructions and its rules. -/
def persona (document : Document) (agent : Agent) : Document :=
  document
    |>.blank
    |>.line ("You are " ++ boldTitle agent ++ ", a " ++ agent.role ++ ".")
    |>.blank
    |>.block agent.systemPrompt
    |>.blank
    |>.bulletSection "## Rules" agent.rules

end AgentKit.Rendering
