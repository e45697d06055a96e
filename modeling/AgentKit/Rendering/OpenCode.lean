/-
# Agents of OpenCode

An agent of OpenCode is the persona of an agent, offered in a mode.
-/

import AgentKit.Rendering.Persona
import AgentKit.Yaml.FrontmatterScalar

namespace AgentKit.Rendering

/-- How OpenCode offers an agent. -/
inductive AgentMode where
  /-- Both as a primary agent and as a subagent. -/
  | everywhere
  deriving DecidableEq, Repr

/-- The word for a mode. -/
def AgentMode.word : AgentMode → String
  | .everywhere => "all"

/-- The document of an agent in a mode. -/
def openCodeAgent (agent : Agent) (mode : AgentMode) : String :=
  let fields := [("description", Yaml.frontmatterScalar agent.summary), ("mode", mode.word)]
  (persona (Document.empty.frontmatter fields) agent).render

end AgentKit.Rendering
