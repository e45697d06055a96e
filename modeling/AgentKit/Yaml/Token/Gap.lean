/-
# Gaps inside scalars

Between two solid characters of a plain or quoted text there may be blanks or line
breaks. Blanks on one line stay as they are. Around line breaks blanks are dropped;
a single line feed becomes a space, and of several the first is dropped.
-/

import AgentKit.Yaml.Character

namespace AgentKit.Yaml

/-- What stands between two solid characters of a text. -/
inductive Gap where
  /-- Nothing. -/
  | none
  /-- Blanks on one line, the last one first. -/
  | blanks (reversed : List Char)
  /-- Line breaks: the first, unless it was escaped, and the others, the last one
  first. -/
  | breaks (first : Option Char) (reversed : List Char)
  deriving DecidableEq, Repr

namespace Gap

/-- A gap with one more blank. After a line break blanks do not count. -/
def addBlank (gap : Gap) (c : Char) : Gap :=
  match gap with
  | .none => .blanks [c]
  | .blanks reversed => .blanks (c :: reversed)
  | .breaks first reversed => .breaks first reversed

/-- A gap with one more line break. -/
def addBreak (gap : Gap) (c : Char) : Gap :=
  match gap with
  | .none | .blanks _ => .breaks (some c) []
  | .breaks first reversed => .breaks first (c :: reversed)

/-- Whether a gap goes beyond its line. -/
def isBroken : Gap → Bool
  | .breaks _ _ => true
  | _ => false

/-- What a gap contributes to the text. -/
def text : Gap → List Char
  | .none => []
  | .blanks reversed => reversed.reverse
  | .breaks (some '\n') [] => [' ']
  | .breaks (some '\n') reversed => reversed.reverse
  | .breaks (some c) reversed => c :: reversed.reverse
  | .breaks .none reversed => reversed.reverse

end Gap

end AgentKit.Yaml
