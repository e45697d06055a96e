/-
# Rule texts

Rules that apply to every agent are written as free text, one rule a line. Blank
lines do not count and surrounding white space is dropped. The rules of an agent
are the language rule, then the lines of the shared text, then its own rules.
-/

import AgentKit.Text.Blank
import AgentKit.Text.Lines

namespace AgentKit.RuleText

/-- The rules of a text: its lines without surrounding white space, blank lines
left out. -/
def rules (text : String) : List String :=
  ((Text.linesOf text).map Text.trimmed).filter (!·.isEmpty)

/-- The rules of an optional text. -/
def rulesOf (text : Option String) : List String :=
  match text with
  | some text => rules text
  | none => []

/-- The rules of an agent, in their fixed order. Repeated rules are kept. -/
def compose (declared : List String) (languageRule : String) (shared : Option String) :
    List String :=
  languageRule :: (rulesOf shared ++ declared)

/-- One text with the rules of several texts, or none where there is no rule. -/
def join (parts : List String) : Option String :=
  match parts.flatMap rules with
  | [] => none
  | lines => some ("\n".intercalate lines)

end AgentKit.RuleText
