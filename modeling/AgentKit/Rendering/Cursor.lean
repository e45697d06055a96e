/-
# Rules of Cursor

A rule of Cursor says which files it applies to. The files are guessed from words
that occur in the slug of the agent; where words of several groups occur, the
later group decides.
-/

import AgentKit.Rendering.Persona
import AgentKit.Text.LowerCase
import AgentKit.Yaml.FrontmatterScalar

namespace AgentKit.Rendering

/-- Words in a slug, and the files that a rule with such a slug applies to. -/
structure GlobGroup where
  words : List String
  globs : String

/-- The groups of words, the weakest first. -/
def globGroups : List GlobGroup :=
  [⟨["test", "qa"], "*.test.*, *.spec.*, **/tests/**"⟩,
   ⟨["css", "style"], "*.css, *.scss, *.tailwind"⟩,
   ⟨["sql", "db"], "*.sql, *.prisma, *.schema"⟩]

/-- Whether a word of a group occurs in a text. -/
def GlobGroup.applies (group : GlobGroup) (text : List Char) : Bool :=
  group.words.any fun word => Text.occursIn word.toList text

/-- The files that the rule with a given slug applies to. -/
def cursorGlobs (slug : String) : String :=
  match globGroups.reverse.find? (·.applies (Text.lower slug.toList)) with
  | some group => group.globs
  | none => "*"

/-- The rule of an agent. -/
def cursorRule (agent : Agent) : String :=
  Document.empty
    |>.frontmatter
      [("description", Yaml.frontmatterScalar agent.summary), ("globs", cursorGlobs agent.slug)]
    |>.blank
    |>.heading 1 (title agent)
    |>.line ("Role: " ++ agent.role)
    |>.blank
    |>.heading 2 "Instructions"
    |>.block agent.systemPrompt
    |>.blank
    |>.bulletSection "## Rules" agent.rules
    |>.render

end AgentKit.Rendering
