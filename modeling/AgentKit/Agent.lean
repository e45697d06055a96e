/-
# Agents

An agent is a definition made ready for rendering: it knows the stem of the file
it came from, the layer that supplied the file, and the composed list of rules.
Its slug and skill name are functions of the stem, so they cannot disagree with it.
-/

import AgentKit.Agent.Identifier
import AgentKit.Definition
import AgentKit.Text.Blank
import AgentKit.Text.Substring

namespace AgentKit

/-- The layer that supplied a definition. No rendering depends on it. -/
inductive Source where
  /-- The default definitions. -/
  | default
  /-- An override of the project. -/
  | local
  deriving DecidableEq, Repr

/-- The key of a layer in reports. -/
def Source.key : Source → String
  | .default => "default"
  | .local => "local"

/-- A loaded agent. `rules` is the composed list: the language rule, the rules of
the project, then the rules of the definition. -/
structure Agent where
  stem : String
  source : Source
  name : String
  role : String
  emoji : String
  systemPrompt : String
  rules : List String
  tools : List String
  description : Option String
  deriving DecidableEq, Repr

namespace Agent

/-- The agent of a definition found under `stem`, with its composed rules. -/
def ofDefinition (definition : Definition) (stem : String) (source : Source)
    (rules : List String) : Agent where
  stem := stem
  source := source
  name := definition.name
  role := definition.role
  emoji := definition.emoji
  systemPrompt := definition.systemPrompt
  rules := rules
  tools := definition.tools
  description := definition.description

/-- The slug of an agent. No two agents of a roster share it. -/
def slug (agent : Agent) : String :=
  slugOf agent.stem

/-- The strict identifier of an agent, for assistants with narrow naming rules.
Different slugs may have the same skill name, and a slug may have an empty one. -/
def skillName (agent : Agent) : String :=
  skillNameOf agent.slug

/-- One line about an agent: the description, or the role where the description
is missing or blank. -/
def summary (agent : Agent) : String :=
  match agent.description with
  | some text => if Text.isBlankText text then agent.role else text
  | none => agent.role

/-- The word in a slug that marks the general coding agent. -/
def primaryMarker : String := "coder"

/-- Whether an agent carries the mark of the general coding agent. -/
def isCoder (agent : Agent) : Bool :=
  Text.occursIn primaryMarker.toList agent.slug.toList

/-- The agent that stands for the whole roster where an assistant reads a single
file: the first coding agent, or else the first agent. -/
def primary? (agents : List Agent) : Option Agent :=
  (agents.find? isCoder).or agents.head?

end Agent

end AgentKit
