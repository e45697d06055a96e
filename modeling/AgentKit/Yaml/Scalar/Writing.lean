/-
# Writing texts as scalars

A text with several lines is written as a literal block, any other as a plain
scalar. A plain scalar that would mean something else is put in single quotes, and
what the chosen style cannot hold is put in double quotes, where every character
can be escaped. Lines are never folded.
-/

import AgentKit.Yaml.Character
import AgentKit.Yaml.Scalar
import AgentKit.Yaml.Token

namespace AgentKit.Yaml

/-- The code points that are written as they are, as inclusive ranges. The byte
order mark is not among them. -/
def printableRanges : List (Nat × Nat) :=
  [(0x0A, 0x0A), (0x20, 0x7E), (0xA0, 0xD7FF), (0xE000, 0xFEFE), (0xFF00, 0xFFFD),
   (0x10000, 0x10FFFF)]

/-- Whether a character is written as it is. -/
def isPrintable (c : Char) : Bool :=
  printableRanges.any fun (low, high) => low ≤ c.toNat && c.toNat ≤ high

/-- The characters that have a meaning at the start of a plain scalar. -/
def leadingIndicators : List Char :=
  ['#', ',', '[', ']', '\x7b', '\x7d', '&', '*', '!', '|', '>', '\'', '"', '%', '@', '\x60']

/-- Whether the start of a text would be misread in a plain scalar. -/
def hasLeadingIndicator : List Char → Bool
  | '-' :: '-' :: '-' :: _ => true
  | '.' :: '.' :: '.' :: _ => true
  | c :: rest => leadingIndicators.contains c || (['?', ':', '-'].contains c && atGap rest)
  | [] => false

/-- Whether a text after a character would be misread in a plain scalar: a colon
before a gap ends a key, and a number sign after one begins a comment. -/
def hasInnerIndicator (previous : Char) : List Char → Bool
  | [] => false
  | c :: rest =>
    (c = ':' && atGap rest) || (c = '#' && !isSolid previous) || hasInnerIndicator c rest

/-- Whether the first of two classes of characters is directly followed by the
second anywhere in a text. -/
def hasPair (p q : Char → Bool) : List Char → Bool
  | a :: b :: rest => (p a && q b) || hasPair p q (b :: rest)
  | _ => false

/-- Whether a character is a space. -/
def isSpace (c : Char) : Bool := c = ' '

/-- Whether a text has only characters that are written as they are, and no space
before a line break. Other texts need double quotes. -/
def isWritable (cs : List Char) : Bool :=
  cs.all isPrintable && !hasPair isSpace isBreak cs

/-- Whether a text keeps its form as a plain scalar. -/
def fitsPlain (cs : List Char) : Bool :=
  match cs with
  | [] => true
  | c :: rest =>
    isWritable cs && !cs.any isBreak && !isSpace c && !cs.getLast?.any isSpace &&
      !hasLeadingIndicator cs && !hasInnerIndicator c rest

/-- Whether a text keeps its form in single quotes. -/
def fitsSingleQuotes (cs : List Char) : Bool :=
  isWritable cs && !hasPair isBreak isSpace cs

/-- Whether a text keeps its form as a literal block. -/
def fitsLiteral (cs : List Char) : Bool :=
  isWritable cs && !cs.getLast?.any isSpace

/-- Whether a text would mean something other than itself as a plain scalar, or
could be taken for a number. -/
def isAmbiguous (cs : List Char) : Bool :=
  meaningOf cs != .text || isZeroPadded cs

/-- The style in which a text is written. -/
def styleOf (cs : List Char) : ScalarStyle :=
  if cs.contains '\n' then
    if fitsLiteral cs then .literal else .doubleQuoted
  else if !isAmbiguous cs && fitsPlain cs then .plain
  else if fitsSingleQuotes cs then .singleQuoted
  else .doubleQuoted

/-- The indentation of the further lines of a scalar. -/
def innerIndent : List Char := [' ', ' ']

/-- A text inside single quotes, with the closing quote. `afterBreak` says whether a
line break came just before. -/
def writeSingleQuotedFrom (afterBreak : Bool) : List Char → List Char
  | [] => (if afterBreak then innerIndent else []) ++ ['\'']
  | c :: rest =>
    if isBreak c then c :: writeSingleQuotedFrom true rest
    else
      (if afterBreak then innerIndent else []) ++ (if c = '\'' then ['\'', '\''] else [c]) ++
        writeSingleQuotedFrom false rest

/-- A text in single quotes. -/
def writeSingleQuoted (cs : List Char) : List Char :=
  '\'' :: writeSingleQuotedFrom false cs

/-- The hexadecimal digit of a number below sixteen, in upper case. -/
def upperHexDigit (n : Nat) : Char :=
  if n < 10 then Char.ofNat ('0'.toNat + n) else Char.ofNat ('A'.toNat + (n - 10))

/-- The last `width` hexadecimal digits of a number. -/
def hexDigits (width n : Nat) : List Char :=
  match width with
  | 0 => []
  | width + 1 => hexDigits width (n / 16) ++ [upperHexDigit (n % 16)]

/-- The number of a character as an escape. -/
def writeCode (code : Nat) : List Char :=
  if code ≤ 0xFF then 'x' :: hexDigits 2 code
  else if code ≤ 0xFFFF then 'u' :: hexDigits 4 code
  else 'U' :: hexDigits 8 code

/-- A character as an escape, without the backslash. -/
def writeEscape (c : Char) : List Char :=
  match c with
  | '\x00' => ['0']
  | '\x07' => ['a']
  | '\x08' => ['b']
  | '\t' => ['t']
  | '\n' => ['n']
  | '\x0b' => ['v']
  | '\x0c' => ['f']
  | '\r' => ['r']
  | '\x1b' => ['e']
  | '"' => ['"']
  | '\\' => ['\\']
  | '\u0085' => ['N']
  | '\u2028' => ['L']
  | '\u2029' => ['P']
  | c => writeCode c.toNat

/-- Whether a character is escaped in double quotes. -/
def needsEscape (c : Char) : Bool :=
  !isPrintable c || isBreak c || c = '"' || c = '\\'

/-- A text in double quotes. -/
def writeDoubleQuoted (cs : List Char) : List Char :=
  '"' :: (cs.flatMap (fun c => if needsEscape c then '\\' :: writeEscape c else [c]) ++ ['"'])

/-- The lines of a literal block, each indented unless it is empty. `atStart` says
whether a line begins here. -/
def writeLiteralLines (atStart : Bool) : List Char → List Char
  | [] => []
  | c :: rest =>
    if isBreak c then c :: writeLiteralLines true rest
    else (if atStart then innerIndent else []) ++ c :: writeLiteralLines false rest

/-- What the first line of a literal block says about the indentation: it is given
where the text begins with a space or an empty line. -/
def indentHint (cs : List Char) : List Char :=
  match cs with
  | c :: _ => if isSpace c || isBreak c then ['2'] else []
  | [] => []

/-- What the first line of a literal block says about the line breaks at the end:
nothing for a single one after text. -/
def chompingHint (cs : List Char) : List Char :=
  match cs.reverse with
  | [] => ['-']
  | last :: before =>
    if !isBreak last then ['-'] else if before.head?.all isBreak then ['+'] else []

/-- A text as a literal block. -/
def writeLiteral (cs : List Char) : List Char :=
  '|' :: (indentHint cs ++ chompingHint cs ++ '\n' :: writeLiteralLines true cs)

/-- A text as a scalar. -/
def writeScalar (cs : List Char) : List Char :=
  match styleOf cs with
  | .plain => cs
  | .singleQuoted => writeSingleQuoted cs
  | .literal | .folded => writeLiteral cs
  | .doubleQuoted => writeDoubleQuoted cs

/-- End a line, unless a line break is there already. -/
def endLine (cs : List Char) : List Char :=
  if cs.getLast?.any isBreak then cs else cs ++ ['\n']

end AgentKit.Yaml
