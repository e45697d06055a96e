/-
# Plain scalars

A plain scalar has no quotes. It ends before a colon that is followed by a gap,
before a comment, before a document mark, in flow collections before their
punctuation, and elsewhere before a line that is not indented enough.
-/

import AgentKit.Yaml.Cursor
import AgentKit.Yaml.Token.Gap

namespace AgentKit.Yaml

/-- Where a plain scalar stands: inside flow collections or not, and the column
that its further lines must reach. -/
structure PlainScope where
  inFlow : Bool
  indent : Int
  deriving DecidableEq, Repr

/-- The punctuation of flow collections. -/
def isFlowPunctuation (c : Char) : Bool :=
  c = ',' || c = '[' || c = ']' || c = '\x7b' || c = '\x7d'

/-- Whether a colon is directly followed by punctuation of flow collections or a
question mark. Inside flow collections such a colon is refused. -/
def isDanglingColon (c : Char) (rest : List Char) : Bool :=
  c = ':' && rest.head?.any fun next => isFlowPunctuation next || next = '?'

/-- Whether a plain scalar ends before the solid character `c`. -/
def PlainScope.endsBefore (scope : PlainScope) (mark : Mark) (gap : Gap) (c : Char)
    (rest : List Char) : Bool :=
  (!scope.inFlow && gap != .none && (mark.column : Int) < scope.indent) ||
    (mark.column = 0 && atDocumentMark (c :: rest)) ||
    (gap != .none && c = '#')

/-- Whether the solid character `c` ends a plain scalar by itself. -/
def PlainScope.endsAt (scope : PlainScope) (c : Char) (rest : List Char) : Bool :=
  (c = ':' && atGap rest) || (scope.inFlow && isFlowPunctuation c)

/-- A plain scalar that was read: its text, whether a line break follows it, and
the cursor behind it and the gap after it. -/
structure PlainReading where
  text : List Char
  endsLine : Bool
  cursor : Cursor
  deriving DecidableEq, Repr

/-- Read a plain scalar. `text` is what was read so far, the last character first,
and `gap` is what was passed since. -/
def readPlain (scope : PlainScope) (mark : Mark) (gap : Gap) (text : List Char) :
    List Char → Except Error PlainReading
  | [] => .ok ⟨text.reverse, gap.isBroken, ⟨mark, []⟩⟩
  | c :: rest =>
    if isBlank c then
      if gap.isBroken && c = '\t' && (mark.column : Int) < scope.indent then
        .error .tabInIndentation
      else readPlain scope (mark.next c) (gap.addBlank c) text rest
    else if isBreak c then readPlain scope (mark.next c) (gap.addBreak c) text rest
    else if scope.endsBefore mark gap c rest then
      .ok ⟨text.reverse, gap.isBroken, ⟨mark, c :: rest⟩⟩
    else if scope.inFlow && isDanglingColon c rest then .error .unexpectedCharacter
    else if scope.endsAt c rest then .ok ⟨text.reverse, gap.isBroken, ⟨mark, c :: rest⟩⟩
    else readPlain scope (mark.next c) .none (c :: (gap.text.reverse ++ text)) rest

end AgentKit.Yaml
