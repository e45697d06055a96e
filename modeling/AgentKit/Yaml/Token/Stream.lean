/-
# The tokens of a text

The text is read token by token. Whether a scalar is a key shows only at the colon
after it, so every place where a key may begin is remembered until the colon comes
or can no longer come; the token that marks a key is then put in front of it. A
block collection begins where something stands further right than the lines
around it, and ends where something stands further left.
-/

import AgentKit.Yaml.Token.Block
import AgentKit.Yaml.Token.Directive
import AgentKit.Yaml.Token.Plain
import AgentKit.Yaml.Token.Quoted

namespace AgentKit.Yaml

/-- A place where a key may have begun: whether a colon has to follow, how many
tokens were read before it, and its position in the text. -/
structure PendingKey where
  required : Bool
  position : Nat
  mark : Mark
  deriving DecidableEq, Repr

/-- The number of octets that a key may have before its colon. -/
def keyLength : Nat := 1024

/-- Whether a key that began at a place can no longer be followed by its colon: a
key lies on one line and is of limited length. -/
def PendingKey.isStale (key : PendingKey) (mark : Mark) : Bool :=
  key.mark.line < mark.line || key.mark.index + keyLength < mark.index

/-- The state of reading tokens. `produced` are the tokens so far, the last one
first. `pending` has an entry for the block level and one for every open flow
collection, the innermost first. `indent` is the column of the innermost open
block collection and `outer` the columns of the others; -1 stands for none. -/
structure TokenReader where
  cursor : Cursor
  produced : List Token
  pending : List (Option PendingKey)
  indent : Int
  outer : List Int
  keyAllowed : Bool
  deriving DecidableEq, Repr

namespace TokenReader

/-- The state before a text. -/
def ofText (cs : List Char) : TokenReader where
  cursor := .ofText cs
  produced := []
  pending := [none]
  indent := -1
  outer := []
  keyAllowed := true

/-- Whether a flow collection is open. -/
def inFlow (reader : TokenReader) : Bool :=
  reader.pending.length > 1

/-- The column of the cursor. -/
def column (reader : TokenReader) : Nat :=
  reader.cursor.mark.column

/-- Append a token and go on at a cursor. -/
def emit (reader : TokenReader) (token : Token) (cursor : Cursor) : TokenReader :=
  { reader with produced := token :: reader.produced, cursor := cursor }

/-- Put tokens in front of all but the first `position` tokens. -/
def insertAt (reader : TokenReader) (position : Nat) (tokens : List Token) : TokenReader :=
  let later := reader.produced.length - position
  { reader with
    produced := reader.produced.take later ++ tokens.reverse ++ reader.produced.drop later }

/-- Whether a block collection at a column would be a new one. -/
def opensBlock (reader : TokenReader) (column : Nat) : Bool :=
  !reader.inFlow && reader.indent < column

/-- Make a column the indentation of the innermost block collection. -/
def indentTo (reader : TokenReader) (column : Nat) : TokenReader :=
  { reader with indent := column, outer := reader.indent :: reader.outer }

/-- Open a block collection at the cursor, unless one is open at this column. -/
def openBlock (reader : TokenReader) (token : Token) : TokenReader :=
  if reader.opensBlock reader.column then
    (reader.emit token reader.cursor).indentTo reader.column
  else reader

/-- Close the block collections to the right of a column. The result is the
indentation that remains, the enclosing ones and the tokens. -/
def closeBlocks (column indent : Int) (outer : List Int) (produced : List Token) :
    Int × List Int × List Token :=
  match outer with
  | [] => (indent, [], produced)
  | next :: others =>
    if indent > column then closeBlocks column next others (.blockEnd :: produced)
    else (indent, next :: others, produced)

/-- Close the block collections to the right of a column, unless a flow collection
is open. -/
def dedentTo (reader : TokenReader) (column : Int) : TokenReader :=
  if reader.inFlow then reader
  else
    let (indent, outer, produced) :=
      closeBlocks column reader.indent reader.outer reader.produced
    { reader with indent := indent, outer := outer, produced := produced }

/-- Give up the key that may have begun on the innermost level. -/
def dropKey (reader : TokenReader) : Except Error TokenReader :=
  match reader.pending with
  | some key :: others =>
    if key.required then .error .missingColon
    else .ok { reader with pending := none :: others }
  | _ => .ok reader

/-- Remember that a key may begin at the cursor, if it may. -/
def saveKey (reader : TokenReader) : Except Error TokenReader := do
  if reader.keyAllowed then
    let reader ← reader.dropKey
    let key : PendingKey :=
      { required := !reader.inFlow && reader.indent == reader.column
        position := reader.produced.length
        mark := reader.cursor.mark }
    .ok { reader with pending := some key :: reader.pending.tail }
  else .ok reader

/-- Give up the keys that can no longer be followed by their colon. -/
def dropStale (mark : Mark) : List (Option PendingKey) →
    Except Error (List (Option PendingKey))
  | [] => .ok []
  | none :: others => (none :: ·) <$> dropStale mark others
  | some key :: others =>
    if key.isStale mark then
      if key.required then .error .missingColon else (none :: ·) <$> dropStale mark others
    else (some key :: ·) <$> dropStale mark others

/-- Pass the blanks, comments and line breaks before the next token. The result is
the cursor and whether a key may begin there. Tabs do not count as blanks where
they could be taken for indentation. A byte order mark at the start of a line is
passed like a space, so what follows it stands one column further right. -/
def passGap (inFlow : Bool) (inComment keyAllowed : Bool) (mark : Mark) :
    List Char → Cursor × Bool
  | [] => (⟨mark, []⟩, keyAllowed)
  | c :: rest =>
    if isBreak c then passGap inFlow false (keyAllowed || !inFlow) (mark.next c) rest
    else if inComment then passGap inFlow true keyAllowed (mark.next c) rest
    else if (mark.column = 0 && c = byteOrderMark) || c = ' ' ||
        (c = '\t' && (inFlow || !keyAllowed)) then
      passGap inFlow false keyAllowed (mark.next c) rest
    else if c = '#' then passGap inFlow true keyAllowed (mark.next c) rest
    else (⟨mark, c :: rest⟩, keyAllowed)

/-- Go to the next token: pass the gap, give up keys and close block collections
that end before it. -/
def advance (reader : TokenReader) : Except Error TokenReader := do
  let (cursor, keyAllowed) :=
    passGap reader.inFlow false reader.keyAllowed reader.cursor.mark reader.cursor.rest
  let pending ← dropStale cursor.mark reader.pending
  let reader := { reader with cursor := cursor, keyAllowed := keyAllowed, pending := pending }
  .ok (reader.dedentTo reader.column)

/-- Leave all block collections, as directives and document marks do. -/
def leaveBlocks (reader : TokenReader) : Except Error TokenReader := do
  let reader ← (reader.dedentTo (-1)).dropKey
  .ok { reader with keyAllowed := false }

/-- Read a directive. -/
def fetchDirective (reader : TokenReader) : Except Error TokenReader := do
  let reader ← reader.leaveBlocks
  let (token, cursor) ← readDirective reader.cursor
  .ok (reader.emit token cursor)

/-- Read the mark at the start or end of a document. -/
def fetchDocumentMark (reader : TokenReader) (token : Token) : Except Error TokenReader := do
  let reader ← reader.leaveBlocks
  .ok (reader.emit token (reader.cursor.skipMany 3))

/-- Read the start of a flow collection. -/
def fetchFlowStart (reader : TokenReader) (token : Token) : Except Error TokenReader := do
  let reader ← reader.saveKey
  let reader := { reader with pending := none :: reader.pending, keyAllowed := true }
  .ok (reader.emit token reader.cursor.skip)

/-- Read the end of a flow collection. -/
def fetchFlowEnd (reader : TokenReader) (token : Token) : Except Error TokenReader := do
  let reader ← reader.dropKey
  let pending := if reader.inFlow then reader.pending.tail else reader.pending
  let reader := { reader with pending := pending, keyAllowed := false }
  .ok (reader.emit token reader.cursor.skip)

/-- Read the comma between the entries of a flow collection. -/
def fetchFlowEntry (reader : TokenReader) : Except Error TokenReader := do
  let reader ← reader.dropKey
  .ok ({ reader with keyAllowed := true }.emit .flowEntry reader.cursor.skip)

/-- Read the hyphen before an entry of a block sequence. -/
def fetchBlockEntry (reader : TokenReader) : Except Error TokenReader := do
  if !reader.inFlow && !reader.keyAllowed then .error .misplacedIndicator
  else
    let reader ← (reader.openBlock .blockSequenceStart).dropKey
    .ok ({ reader with keyAllowed := true }.emit .blockEntry reader.cursor.skip)

/-- Read the question mark before a key. -/
def fetchKey (reader : TokenReader) : Except Error TokenReader := do
  if !reader.inFlow && !reader.keyAllowed then .error .misplacedIndicator
  else
    let reader ← (reader.openBlock .blockMappingStart).dropKey
    .ok ({ reader with keyAllowed := !reader.inFlow }.emit .key reader.cursor.skip)

/-- Mark a key that began at a place, and open a block mapping at its column unless
one is open. -/
def markKey (reader : TokenReader) (key : PendingKey) : TokenReader :=
  if reader.opensBlock key.mark.column then
    (reader.insertAt key.position [.blockMappingStart, .key]).indentTo key.mark.column
  else reader.insertAt key.position [.key]

/-- Read the colon before a value. -/
def fetchValue (reader : TokenReader) : Except Error TokenReader := do
  match reader.pending with
  | some key :: others =>
    let reader := { reader.markKey key with pending := none :: others, keyAllowed := false }
    .ok (reader.emit .value reader.cursor.skip)
  | _ =>
    if !reader.inFlow && !reader.keyAllowed then .error .misplacedIndicator
    else
      let reader := { reader.openBlock .blockMappingStart with keyAllowed := !reader.inFlow }
      .ok (reader.emit .value reader.cursor.skip)

/-- Read an anchor or alias. -/
def fetchName (reader : TokenReader) (token : List Char → Token) :
    Except Error TokenReader := do
  let reader ← reader.saveKey
  let (name, cursor) ← readName reader.cursor.skip
  .ok ({ reader with keyAllowed := false }.emit (token name) cursor)

/-- Read a tag. -/
def fetchTag (reader : TokenReader) : Except Error TokenReader := do
  let reader ← reader.saveKey
  let (tag, cursor) ← readTag reader.inFlow reader.cursor
  .ok ({ reader with keyAllowed := false }.emit (.tag tag) cursor)

/-- Read a block scalar. -/
def fetchBlock (reader : TokenReader) (style : ScalarStyle) : Except Error TokenReader := do
  let reader ← reader.dropKey
  let block ← readBlock (style == .folded) reader.indent reader.cursor.skip
  .ok ({ reader with keyAllowed := true }.emit (.scalar style block.text) block.cursor)

/-- Read a quoted scalar. -/
def fetchQuoted (reader : TokenReader) (style : ScalarStyle) : Except Error TokenReader := do
  let reader ← reader.saveKey
  let start := reader.cursor.skip
  let quoted ←
    if style == .singleQuoted then readSingleQuoted start.mark .none [] start.rest
    else readDoubleQuoted start.mark (.text .none) [] start.rest
  .ok ({ reader with keyAllowed := false }.emit (.scalar style quoted.text) quoted.cursor)

/-- Read a plain scalar. A line break behind it makes room for a key. -/
def fetchPlain (reader : TokenReader) : Except Error TokenReader := do
  let reader ← reader.saveKey
  let scope : PlainScope := { inFlow := reader.inFlow, indent := reader.indent + 1 }
  let plain ← readPlain scope reader.cursor.mark .none [] reader.cursor.rest
  .ok ({ reader with keyAllowed := plain.endsLine }.emit (.scalar .plain plain.text)
    plain.cursor)

/-- The characters that never begin a plain scalar. -/
def indicators : List Char :=
  ['-', '?', ':', ',', '[', ']', '\x7b', '\x7d', '#', '&', '*', '!', '|', '>', '\'', '"',
   '%', '@', '\x60']

/-- Whether a plain scalar begins with the character `c` before `rest`. A hyphen
begins one unless a blank follows, and outside flow collections a question mark or
colon does unless a gap follows. -/
def beginsPlain (inFlow : Bool) (c : Char) (rest : List Char) : Bool :=
  (isSolid c && !indicators.contains c) ||
    (c = '-' && !rest.head?.any isBlank) ||
    (!inFlow && (c = '?' || c = ':') && !atGap rest)

/-- Read the token that begins with the character `c` before `rest`. -/
def fetchAt (reader : TokenReader) (c : Char) (rest : List Char) : Except Error TokenReader :=
  if reader.column = 0 && c = '%' then reader.fetchDirective
  else if reader.column = 0 && atDocumentMark (c :: rest) then
    reader.fetchDocumentMark (if c = '-' then .documentStart else .documentEnd)
  else if c = '[' then reader.fetchFlowStart .flowSequenceStart
  else if c = '\x7b' then reader.fetchFlowStart .flowMappingStart
  else if c = ']' then reader.fetchFlowEnd .flowSequenceEnd
  else if c = '\x7d' then reader.fetchFlowEnd .flowMappingEnd
  else if c = ',' then reader.fetchFlowEntry
  else if c = '-' && atGap rest then reader.fetchBlockEntry
  else if c = '?' && (reader.inFlow || atGap rest) then reader.fetchKey
  else if c = ':' && (reader.inFlow || atGap rest) then reader.fetchValue
  else if c = '*' then reader.fetchName .alias
  else if c = '&' then reader.fetchName .anchor
  else if c = '!' then reader.fetchTag
  else if c = '|' && !reader.inFlow then reader.fetchBlock .literal
  else if c = '>' && !reader.inFlow then reader.fetchBlock .folded
  else if c = '\'' then reader.fetchQuoted .singleQuoted
  else if c = '"' then reader.fetchQuoted .doubleQuoted
  else if beginsPlain reader.inFlow c rest then reader.fetchPlain
  else .error .unexpectedCharacter

/-- The tokens after the end of the text was reached. -/
def finish (reader : TokenReader) : Except Error (List Token) := do
  let reader ← (reader.dedentTo (-1)).dropKey
  .ok reader.produced.reverse

/-- Read all tokens, in at most `fuel` steps. Every token takes up at least one
character, so one step more than there are characters is enough. -/
def readAll : Nat → TokenReader → Except Error (List Token)
  | 0, _ => .error .unexpectedCharacter
  | fuel + 1, reader =>
    match reader.advance with
    | .error error => .error error
    | .ok reader =>
      match reader.cursor.rest with
      | [] => reader.finish
      | c :: rest =>
        match reader.fetchAt c rest with
        | .error error => .error error
        | .ok reader => readAll fuel reader

end TokenReader

/-- The tokens of a prepared text. -/
def tokensOf (cs : List Char) : Except Error (List Token) :=
  TokenReader.readAll (cs.length + 1) (.ofText cs)

end AgentKit.Yaml
