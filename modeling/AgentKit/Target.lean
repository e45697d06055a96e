/-
# Target assistants

A target is a coding assistant that can be supplied with agents. Each target has
a key for command lines and settings, texts for listings, and a marker: the path
whose presence in a project shows that agents were installed for it before.
-/

import AgentKit.Text.Blank
import AgentKit.Text.LowerCase

namespace AgentKit

/-- A coding assistant that can be supplied with agents. -/
inductive Target where
  | gemini
  | claude
  | cursor
  | kilo
  | opencode
  | antigravity
  | roo
  | cline
  | windsurf
  | trae
  | copilot
  | web
  deriving DecidableEq, Repr

namespace Target

/-- The targets, in the order in which they are listed and detected. -/
def all : List Target :=
  [.gemini, .claude, .cursor, .kilo, .opencode, .antigravity, .roo, .cline, .windsurf,
   .trae, .copilot, .web]

/-- The key of a target. No two targets share one. -/
def key : Target → String
  | .gemini => "gemini"
  | .claude => "claude"
  | .cursor => "cursor"
  | .kilo => "kilo"
  | .opencode => "opencode"
  | .antigravity => "antigravity"
  | .roo => "roo"
  | .cline => "cline"
  | .windsurf => "windsurf"
  | .trae => "trae"
  | .copilot => "copilot"
  | .web => "web"

/-- The name of a target as its makers write it. -/
def label : Target → String
  | .gemini => "Gemini CLI"
  | .claude => "Claude Code"
  | .cursor => "Cursor"
  | .kilo => "Kilo Code"
  | .opencode => "OpenCode"
  | .antigravity => "Antigravity"
  | .roo => "Roo Code"
  | .cline => "Cline"
  | .windsurf => "Windsurf"
  | .trae => "Trae IDE"
  | .copilot => "GitHub Copilot"
  | .web => "OpenAI / Claude (web)"

/-- A short account of where the files of a target are kept. -/
def hint : Target → String
  | .gemini => ".gemini/commands/dev + .gemini/skills"
  | .claude => ".claude/commands/agents + .claude/skills + .claude/agents"
  | .cursor => ".cursor/commands/*.mdc + .cursor/skills"
  | .kilo => ".kilocode/workflows + .kilocode/skills"
  | .opencode => ".opencode/skills + .opencode/agents"
  | .antigravity => ".agent/skills"
  | .roo => ".roo/skills + roo_custom_modes.json"
  | .cline => ".cline/*.md + cline_custom_modes.json"
  | .windsurf => ".windsurfrules"
  | .trae => ".trae/instructions.md"
  | .copilot => ".github/agents + .github/copilot-instructions.md"
  | .web => "prompts/*.txt"

/-- The path below the root of a project that shows an earlier installation. -/
def marker : Target → String
  | .gemini => ".gemini"
  | .claude => ".claude"
  | .cursor => ".cursor"
  | .kilo => ".kilocode"
  | .opencode => ".opencode"
  | .antigravity => ".agent"
  | .roo => ".roo"
  | .cline => ".cline"
  | .windsurf => ".windsurfrules"
  | .trae => ".trae"
  | .copilot => ".github"
  | .web => "prompts"

/-- Whether a target also reads one manifest that lists all agents as modes. -/
def hasModeManifest : Target → Bool
  | .roo | .cline => true
  | _ => false

/-- The target that a text names: its key, with surrounding white space and
upper case allowed. -/
def ofText? (text : String) : Option Target :=
  let name := Text.lower (Text.trim text.toList)
  all.find? fun target => target.key.toList == name

end Target

end AgentKit
