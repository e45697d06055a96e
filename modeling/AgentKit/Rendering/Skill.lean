/-
# Skills

The skill of an agent is a document with frontmatter. Every assistant that knows
skills reads the same one. Its name is written as it is; the description is
quoted where it could be misread.
-/

import AgentKit.Rendering.Persona
import AgentKit.Yaml.FrontmatterScalar

namespace AgentKit.Rendering

/-- The skill of an agent. -/
def skill (agent : Agent) : String :=
  Document.empty
    |>.frontmatter
      [("name", agent.skillName), ("description", Yaml.frontmatterScalar agent.summary)]
    |>.blank
    |>.heading 1 (title agent)
    |>.blank
    |>.line ("**Role**: " ++ agent.role)
    |>.blank
    |>.heading 2 "Instructions"
    |>.block agent.systemPrompt
    |>.blank
    |>.bulletSection "## Rules" agent.rules
    |>.render

end AgentKit.Rendering
