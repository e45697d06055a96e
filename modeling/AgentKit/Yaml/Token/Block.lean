/-
# Block scalars

A block scalar is a text on lines of its own, indented below the line that
announces it. In a literal one the line breaks stay; in a folded one a single line
feed between two lines that do not begin with a blank becomes a space. The first
line may fix the indentation and say what happens to the line breaks at the end.
-/

import AgentKit.Yaml.Cursor

namespace AgentKit.Yaml

/-- What happens to the line breaks at the end of a block scalar: all are dropped,
the first is kept, or all are kept. -/
inductive Chomping where
  | strip
  | clip
  | keep
  deriving DecidableEq, Repr

/-- What the first line of a block scalar says. -/
structure BlockHeader where
  chomping : Chomping
  /-- The indentation relative to the lines around, if it is fixed. -/
  increment : Option Nat
  deriving DecidableEq, Repr

/-- The chomping that a character stands for. -/
def chompingOf? (c : Char) : Option Chomping :=
  if c = '+' then some .keep else if c = '-' then some .strip else none

/-- The indentation that a character stands for. Zero is not among them. -/
def incrementOf? (c : Char) : Option Nat :=
  if '1' ≤ c && c ≤ '9' then some (c.toNat - '0'.toNat) else none

/-- Read what follows the indicator of a block scalar on its line: chomping and
indentation in any order, both optional. -/
def readBlockHeader (cursor : Cursor) : BlockHeader × Cursor :=
  match cursor.rest with
  | [] => (⟨.clip, none⟩, cursor)
  | c :: rest =>
    match chompingOf? c, incrementOf? c with
    | some chomping, _ =>
      match rest.head?.bind incrementOf? with
      | some increment => (⟨chomping, some increment⟩, cursor.skipMany 2)
      | none => (⟨chomping, none⟩, cursor.skip)
    | none, some increment =>
      match rest.head?.bind chompingOf? with
      | some chomping => (⟨chomping, some increment⟩, cursor.skipMany 2)
      | none => (⟨.clip, some increment⟩, cursor.skip)
    | none, none => (⟨.clip, none⟩, cursor)

/-- Whether a column is still indentation. Without a known indentation every
column is. -/
def isIndentation (indent : Option Nat) (column : Nat) : Bool :=
  indent.all (column < ·)

/-- The empty lines at the start of a block scalar: their line breaks, the largest
indentation among them and the first other line, and the cursor in that line. -/
structure BlockLead where
  breaks : List Char
  widest : Nat
  cursor : Cursor
  deriving DecidableEq, Repr

/-- Pass the empty lines at the start of a block scalar, and the indentation of the
first other line. `breaks` are the line breaks so far, the last one first. -/
def readBlockLead (indent : Option Nat) (mark : Mark) (widest : Nat) (breaks : List Char) :
    List Char → Except Error BlockLead
  | [] => .ok ⟨breaks.reverse, max widest mark.column, ⟨mark, []⟩⟩
  | c :: rest =>
    if c = ' ' && isIndentation indent mark.column then
      readBlockLead indent (mark.next c) widest breaks rest
    else if c = '\t' && isIndentation indent mark.column then .error .tabInIndentation
    else if isBreak c then
      readBlockLead indent (mark.next c) (max widest mark.column) (c :: breaks) rest
    else .ok ⟨breaks.reverse, max widest mark.column, ⟨mark, c :: rest⟩⟩

/-- What stands at the cursor inside a block scalar. -/
inductive BlockState where
  /-- A line with text. `blankStart` says whether it begins with a blank. -/
  | line (blankStart : Bool)
  /-- The start of a line. `first` is the break of the last line with text, `others`
  are the breaks of empty lines after it, the last one first. -/
  | lead (blankStart : Bool) (first : Option Char) (others : List Char)
  deriving DecidableEq, Repr

/-- What the line breaks between two lines of a block scalar contribute. -/
def blockJoin (folded : Bool) (blankBefore blankAfter : Bool) (first : Option Char)
    (others : List Char) : List Char :=
  if folded && first == some '\n' && !blankBefore && !blankAfter then
    if others.isEmpty then [' '] else others
  else first.toList ++ others

/-- What the line breaks at the end of a block scalar contribute. -/
def blockEnd (chomping : Chomping) (first : Option Char) (others : List Char) : List Char :=
  match chomping with
  | .strip => []
  | .clip => first.toList
  | .keep => first.toList ++ others

/-- A block text that was read, and the cursor behind it. -/
structure BlockReading where
  text : List Char
  cursor : Cursor
  deriving DecidableEq, Repr

/-- How the lines of a block scalar are read. -/
structure BlockScope where
  folded : Bool
  chomping : Chomping
  indent : Nat
  deriving DecidableEq, Repr

/-- Read the lines of a block scalar. `text` is what was read so far, the last
character first. -/
def readBlockLines (scope : BlockScope) (mark : Mark) (state : BlockState)
    (text : List Char) : List Char → Except Error BlockReading
  | [] =>
    match state with
    | .line _ => .ok ⟨text.reverse, ⟨mark, []⟩⟩
    | .lead _ first others =>
      .ok ⟨text.reverse ++ blockEnd scope.chomping first others.reverse, ⟨mark, []⟩⟩
  | c :: rest =>
    match state with
    | .line blankStart =>
      if isBreak c then
        readBlockLines scope (mark.next c) (.lead blankStart (some c) []) text rest
      else readBlockLines scope (mark.next c) state (c :: text) rest
    | .lead blankStart first others =>
      if c = ' ' && mark.column < scope.indent then
        readBlockLines scope (mark.next c) state text rest
      else if c = '\t' && mark.column < scope.indent then .error .tabInIndentation
      else if isBreak c then
        readBlockLines scope (mark.next c) (.lead blankStart first (c :: others)) text rest
      else if mark.column = scope.indent then
        let joined := blockJoin scope.folded blankStart (isBlank c) first others.reverse
        readBlockLines scope (mark.next c) (.line (isBlank c)) (c :: (joined.reverse ++ text)) rest
      else
        .ok ⟨text.reverse ++ blockEnd scope.chomping first others.reverse, ⟨mark, c :: rest⟩⟩

/-- The indentation of a block scalar inside lines indented by `outer`, where its
first line does not fix it: the widest of its first lines, and at least one more
than `outer`. -/
def detectedIndent (outer : Int) (widest : Nat) : Nat :=
  max (max widest (outer + 1).toNat) 1

/-- The indentation of a block scalar whose first line fixes it. -/
def fixedIndent (outer : Int) (increment : Nat) : Nat :=
  if outer ≥ 0 then outer.toNat + increment else increment

/-- Read a block scalar after its indicator, inside lines indented by `outer`. -/
def readBlock (folded : Bool) (outer : Int) (cursor : Cursor) :
    Except Error BlockReading := do
  let (header, cursor) := readBlockHeader cursor
  let cursor ← cursor.skipLineEnd .malformedBlockHeader
  let indent := header.increment.map (fixedIndent outer)
  let lead ← readBlockLead indent cursor.mark 0 [] cursor.rest
  let scope : BlockScope :=
    { folded := folded
      chomping := header.chomping
      indent := indent.getD (detectedIndent outer lead.widest) }
  readBlockLines scope lead.cursor.mark (.lead false none lead.breaks.reverse) []
    lead.cursor.rest

end AgentKit.Yaml
