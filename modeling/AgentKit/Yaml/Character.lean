/-
# Characters of YAML

The character classes on which the notation rests. Blanks are the space and the
tab. Line breaks are the line feed and the two Unicode separators; the other
spellings of a line break are turned into line feeds before anything is read.
-/

import AgentKit.Yaml.Error

namespace AgentKit.Yaml

/-- The code points that a document may hold, as inclusive ranges. -/
def allowedRanges : List (Nat × Nat) :=
  [(0x09, 0x0A), (0x0D, 0x0D), (0x20, 0x7E), (0x85, 0x85), (0xA0, 0xD7FF), (0xE000, 0xFFFD),
   (0x10000, 0x10FFFF)]

/-- Whether a document may hold a character. -/
def isAllowed (c : Char) : Bool :=
  allowedRanges.any fun (low, high) => low ≤ c.toNat && c.toNat ≤ high

/-- The byte order mark. It is a character of the text like any other. -/
def byteOrderMark : Char := '\uFEFF'

/-- Whether a character is a blank. -/
def isBlank (c : Char) : Bool :=
  c = ' ' || c = '\t'

/-- Whether a character is a line break. -/
def isBreak (c : Char) : Bool :=
  c = '\n' || c = '\u2028' || c = '\u2029'

/-- Whether a character is neither a blank nor a line break. -/
def isSolid (c : Char) : Bool :=
  !isBlank c && !isBreak c

/-- Whether a character may stand in the name of an anchor, a handle or a
directive. -/
def isNameChar (c : Char) : Bool :=
  c.isAlphanum || c = '_' || c = '-'

/-- Whether a text has no solid character at its start. -/
def atGap : List Char → Bool
  | [] => true
  | c :: _ => !isSolid c

/-- Whether a text begins with a line of three equal marks, as documents do that
are begun or ended explicitly. -/
def atDocumentMark : List Char → Bool
  | '-' :: '-' :: '-' :: rest => atGap rest
  | '.' :: '.' :: '.' :: rest => atGap rest
  | _ => false

/-- Turn every spelling of a line break other than the two Unicode separators into
a line feed. -/
def normalizeBreaks : List Char → List Char
  | [] => []
  | '\r' :: '\n' :: rest => '\n' :: normalizeBreaks rest
  | '\r' :: rest => '\n' :: normalizeBreaks rest
  | '\u0085' :: rest => '\n' :: normalizeBreaks rest
  | c :: rest => c :: normalizeBreaks rest

/-- Make a text ready for reading: refuse characters that no document may hold and
unify the line breaks. -/
def prepare (cs : List Char) : Except Error (List Char) :=
  if cs.all isAllowed then .ok (normalizeBreaks cs) else .error .forbiddenCharacter

end AgentKit.Yaml
