/-
# Plans

The plan of a target lists the artifacts that the target needs for a list of
agents, in a fixed order. Most targets give every agent files of its own, some
read one file for the whole list, and two add a manifest. Without agents nothing
is planned.
-/

import AgentKit.Artifact
import AgentKit.Rendering.Claude
import AgentKit.Rendering.Copilot
import AgentKit.Rendering.Cursor
import AgentKit.Rendering.Gemini
import AgentKit.Rendering.Modes
import AgentKit.Rendering.OpenCode
import AgentKit.Rendering.Prompt
import AgentKit.Rendering.Skill
import AgentKit.Rendering.Workflow
import AgentKit.Rendering.Workspace
import AgentKit.Target

namespace AgentKit

namespace Artifact

/-- The place of a skill below a directory: a directory with the name of the skill
and the file in it. A skill without a name lies in the directory itself. -/
def skillPath (directory : String) (name : String) : String :=
  directory ++ "/" ++ (if name.isEmpty then "" else name ++ "/") ++ "SKILL.md"

/-- The skill of an agent below a directory. -/
def skill (directory : String) (agent : Agent) : Artifact where
  path := skillPath directory agent.skillName
  content := Rendering.skill agent

/-- The one file of a target that reads a single file: a rendering of the agent
that stands for the list. -/
def ofPrimary (agents : List Agent) (path : String) (rendering : Agent → String) :
    List Artifact :=
  (Agent.primary? agents).toList.map fun agent => ⟨path, rendering agent⟩

/-- The manifest of modes, unless there are no agents. -/
def modeManifest (agents : List Agent) (path : String) : List Artifact :=
  if agents.isEmpty then [] else [⟨path, Rendering.modeManifest agents⟩]

end Artifact

/-- The files that a target keeps for one agent. -/
def Target.agentArtifacts (target : Target) (locale : Locale) (agent : Agent) : List Artifact :=
  match target with
  | .gemini =>
    [⟨".gemini/commands/dev/" ++ agent.stem ++ ".toml", Rendering.geminiCommand agent⟩,
     .skill ".gemini/skills" agent]
  | .claude =>
    [⟨".claude/commands/agents/" ++ agent.slug ++ ".md", Rendering.claudeCommand agent⟩,
     .skill ".claude/skills" agent,
     ⟨".claude/agents/" ++ agent.skillName ++ ".md", Rendering.claudeSubagent agent⟩]
  | .cursor =>
    [⟨".cursor/commands/" ++ agent.slug ++ ".mdc", Rendering.cursorRule agent⟩,
     .skill ".cursor/skills" agent]
  | .kilo =>
    [⟨".kilocode/workflows/" ++ agent.slug ++ ".md",
        Rendering.workflow agent Rendering.kiloHeader⟩,
     .skill ".kilocode/skills" agent]
  | .opencode =>
    [.skill ".opencode/skills" agent,
     ⟨".opencode/agents/" ++ agent.skillName ++ ".md",
        Rendering.openCodeAgent agent .everywhere⟩]
  | .antigravity => [.skill ".agent/skills" agent]
  | .roo => [.skill ".roo/skills" agent]
  | .cline =>
    [⟨".cline/" ++ agent.slug ++ ".md", Rendering.workflow agent Rendering.clineHeader⟩]
  | .windsurf | .trae => []
  | .copilot =>
    [⟨".github/agents/" ++ agent.slug ++ ".md", Rendering.copilotInstructions agent locale⟩]
  | .web => [⟨"prompts/" ++ agent.slug ++ ".txt", Rendering.plainPrompt agent⟩]

/-- The files that a target keeps for a whole list of agents. -/
def Target.sharedArtifacts (target : Target) (locale : Locale) (agents : List Agent) :
    List Artifact :=
  match target with
  | .roo => Artifact.modeManifest agents "roo_custom_modes.json"
  | .cline => Artifact.modeManifest agents "cline_custom_modes.json"
  | .windsurf => Artifact.ofPrimary agents ".windsurfrules" Rendering.windsurfRules
  | .trae => Artifact.ofPrimary agents ".trae/instructions.md" Rendering.traeRules
  | .copilot =>
    Artifact.ofPrimary agents ".github/copilot-instructions.md" fun agent =>
      Rendering.copilotInstructions agent locale
  | .gemini | .claude | .cursor | .kilo | .opencode | .antigravity | .web => []

/-- The artifacts that a target needs for a list of agents: the files of each
agent in turn, then the shared files. -/
def Target.plan (target : Target) (locale : Locale) (agents : List Agent) : List Artifact :=
  agents.flatMap (target.agentArtifacts locale) ++ target.sharedArtifacts locale agents

end AgentKit
