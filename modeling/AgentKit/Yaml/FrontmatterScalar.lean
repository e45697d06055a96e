/-
# Scalars of frontmatter

A value in the frontmatter of a document is written plainly where that cannot be
misread, and as a double-quoted string otherwise. The test is on the safe side:
it quotes every text with a character that has a meaning in YAML, every text
that begins like a list item, and every text that reads as a number or a truth
value.
-/

import AgentKit.Document.Quoted
import AgentKit.Number.Decimal
import AgentKit.Text.Blank
import AgentKit.Text.LowerCase

namespace AgentKit.Yaml

/-- The characters that never occur in a plainly written value. -/
def reservedChars : List Char :=
  [':', '#', '\x7b', '\x7d', '[', ']', ',', '&', '*', '!', '|', '>', '\'', '"', '%', '@', '`',
   '\n', '\r', '\t', '\\']

/-- The words that are not written plainly, in lower case. -/
def reservedWords : List String :=
  ["true", "false", "yes", "no", "null", "~", "on", "off"]

/-- Whether a text begins like an item of a list or a key. -/
def startsLikeItem : List Char → Bool
  | [] => false
  | c :: _ => c = '-' || c = '?'

/-- Whether a value has to be quoted. -/
def needsQuotes (cs : List Char) : Bool :=
  cs.isEmpty || Text.trim cs != cs || startsLikeItem cs || cs.any reservedChars.contains ||
    reservedWords.contains (String.ofList (Text.lower cs)) || Number.isNumberNotation cs

/-- A text as the value of a frontmatter field. -/
def frontmatterScalar (value : String) : String :=
  if needsQuotes value.toList then Document.quoted value else value

end AgentKit.Yaml
