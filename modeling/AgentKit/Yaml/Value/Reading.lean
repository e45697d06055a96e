/-
# Reading values

A text is read as a value in steps: its characters are checked, its tokens are
read, they are put together to a node, and the node is given its meaning. Aliases
are replaced by what they stand for; how deep collections may be nested and how
often aliases may be followed is limited, so every text has an answer.
-/

import AgentKit.Yaml.Node.Anchor
import AgentKit.Yaml.Node.Reading
import AgentKit.Yaml.Token.Stream
import AgentKit.Yaml.Value

namespace AgentKit.Yaml

/-- How deep collections may be nested. -/
def maxDepth : Nat := 128

/-- A tag of the standard kinds of values. -/
def standardTag (name : String) : Tag :=
  ("tag:yaml.org,2002:" ++ name).toUTF8.toList

/-- The name of a document's own tag: what follows the exclamation mark, or the mark
itself. -/
def ownTag? : Tag → Option String
  | 0x21 :: rest =>
    let name := if rest.isEmpty then [0x21] else rest
    let bare := if name.length > 1 && name.head? == some 0x21 then name.tail else name
    String.fromUTF8? ⟨bare.toArray⟩
  | _ => none

/-- Whether a tag begins with an exclamation mark. -/
def isOwnTag (tag : Tag) : Bool :=
  tag.head? == some 0x21

/-- The value of an untagged plain scalar. -/
def plainValue (text : List Char) : Except Error Value :=
  match meaningOf text with
  | .null => .ok .null
  | .bool value => .ok (.bool value)
  | .integer value => if isIntegerValue value then .ok (.integer value) else .error .badScalar
  | .float value => .ok (.float value)
  | .text => .ok (.string (String.ofList text))

/-- The value of a scalar without regard to tags. -/
def untaggedValue (style : ScalarStyle) (text : List Char) : Except Error Value :=
  if style = .plain then plainValue text else .ok (.string (String.ofList text))

/-- The value of a scalar whose tag says that it is an integer. -/
def taggedInteger (text : List Char) : Except Error Value :=
  match integerOf? text with
  | some value => if isIntegerValue value then .ok (.integer value) else .error .badScalar
  | none => .error .badScalar

/-- The value of a scalar with a tag of the standard kinds. Tags other than those for
null, truth values and numbers make it text. -/
def standardValue (tag : Tag) (text : List Char) : Except Error Value :=
  if tag = standardTag "bool" then
    match boolOf? text with
    | some value => .ok (.bool value)
    | none => .error .badScalar
  else if tag = standardTag "int" then taggedInteger text
  else if tag = standardTag "float" then
    match floatOf? text with
    | some value => .ok (.float value)
    | none => .error .badScalar
  else if tag = standardTag "null" then
    if isNullWord text then .ok .null else .error .badScalar
  else .ok (.string (String.ofList text))

/-- A value under a tag. Only a document's own tag shows in the value. -/
def tagValue (tag : Option Tag) (value : Value) : Value :=
  match tag.bind ownTag? with
  | some name => .tagged name value
  | none => value

/-- The value of a scalar. A document's own tag leaves the notation to decide what
kind of value it is. -/
def scalarValue (tag : Option Tag) (style : ScalarStyle) (text : List Char) :
    Except Error Value :=
  match tag with
  | none => untaggedValue style text
  | some tag =>
    if isOwnTag tag then tagValue (some tag) <$> untaggedValue style text
    else standardValue tag text

/-- Follow a node if it is an alias. The result is a node and how many more aliases
may be followed. -/
def LinkedDocument.follow (document : LinkedDocument) (node : NumberedNode)
    (budget : Nat) : Except Error (NumberedNode × Nat) :=
  match node with
  | .alias target =>
    match budget, document.target target with
    | 0, _ => .error .tooManyAliases
    | _, none => .error .unknownAlias
    | budget + 1, some node => .ok (node, budget)
  | node => .ok (node, budget)

/-- Reading of a node with a number of aliases that may be followed. The result is a
value and the number that remains. -/
abbrev NodeReader := NumberedNode → Nat → Except Error (Value × Nat)

/-- Read the items of a sequence. -/
def readItems (read : NodeReader) (budget : Nat) :
    List NumberedNode → Except Error (List Value × Nat)
  | [] => .ok ([], budget)
  | item :: items => do
    let (value, budget) ← read item budget
    let (values, budget) ← readItems read budget items
    .ok (value :: values, budget)

/-- Read the entries of a mapping after the entries `before`. A key must not be there
yet. -/
def readEntries (read : NodeReader) (before : List (Value × Value)) (budget : Nat) :
    List (NumberedNode × NumberedNode) → Except Error (List (Value × Value) × Nat)
  | [] => .ok (before, budget)
  | (key, value) :: entries => do
    let (key, budget) ← read key budget
    if before.any fun entry => entry.1.equals key then .error .duplicateKey
    else
      let (value, budget) ← read value budget
      readEntries read (before ++ [(key, value)]) budget entries

/-- Read a node inside of which collections may be nested `depth` deep. -/
def readAt (document : LinkedDocument) (depth : Nat) (node : NumberedNode)
    (budget : Nat) : Except Error (Value × Nat) :=
  match depth with
  | 0 => do
    let (node, budget) ← document.follow node budget
    match node with
    | .scalar properties style text =>
      .ok (← scalarValue properties.tag style text, budget)
    | _ => .error .tooDeep
  | depth + 1 => do
    let (node, budget) ← document.follow node budget
    match node with
    | .scalar properties style text =>
      .ok (← scalarValue properties.tag style text, budget)
    | .sequence properties items =>
      let (values, budget) ← readItems (readAt document depth) budget items
      .ok (tagValue properties.tag (.sequence values), budget)
    | .mapping properties entries =>
      let (values, budget) ← readEntries (readAt document depth) [] budget entries
      .ok (tagValue properties.tag (.mapping values), budget)
    | .alias _ => .error .unknownAlias

/-- The value of a document. -/
def LinkedDocument.value (document : LinkedDocument) : Except Error Value := do
  let (value, _) ← readAt document maxDepth document.root document.aliasBudget
  .ok value

/-- The document that a text holds, if it holds one. -/
def documentOf (text : String) : Except Error (Option LinkedDocument) := do
  let tokens ← tokensOf (← prepare text.toList)
  match ← readDocument tokens with
  | some node => .ok (some (← LinkedDocument.ofNode node))
  | none => .ok none

/-- The value that a text writes. A text without a document is null. -/
def Value.ofText (text : String) : Except Error Value := do
  match ← documentOf text with
  | some document => document.value
  | none => .ok .null

end AgentKit.Yaml
