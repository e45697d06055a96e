/-
# JSON documents

The values of a JSON document, and the layout in which they are written: every
item of a list and every member of an object stands on a line of its own, indented
by two spaces for each enclosing list or object. An empty list or object takes no
lines. Members keep the order in which they are given, so a caller that wants them
sorted gives them sorted.
-/

namespace AgentKit

/-- A JSON value. Numbers are counts. -/
inductive Json where
  | null
  | bool (value : Bool)
  | number (value : Nat)
  | string (value : String)
  | array (items : List Json)
  | object (members : List (String × Json))
  deriving Repr

namespace Json

/-- A string or null. -/
def ofOption (value : Option String) : Json :=
  match value with
  | some text => .string text
  | none => .null

/-- A list of strings. -/
def ofStrings (values : List String) : Json :=
  .array (values.map .string)

/-- The hexadecimal digit of a number below sixteen, in lower case. -/
def hexDigit (n : Nat) : Char :=
  if n < 10 then Char.ofNat ('0'.toNat + n) else Char.ofNat ('a'.toNat + (n - 10))

/-- The written form of a character inside a string. Characters below the space
are escaped, by a letter where there is one and by number otherwise. -/
def escapeChar (c : Char) : List Char :=
  match c with
  | '"' => ['\\', '"']
  | '\\' => ['\\', '\\']
  | '\x08' => ['\\', 'b']
  | '\x0c' => ['\\', 'f']
  | '\n' => ['\\', 'n']
  | '\r' => ['\\', 'r']
  | '\t' => ['\\', 't']
  | c =>
    if c.toNat < 0x20 then
      ['\\', 'u', '0', '0', hexDigit (c.toNat / 16), hexDigit (c.toNat % 16)]
    else [c]

/-- The written form of a string, with its quotes. -/
def writeString (text : String) : List Char :=
  '"' :: (text.toList.flatMap escapeChar ++ ['"'])

/-- The start of a new line inside `depth` lists and objects. -/
def newLine (depth : Nat) : List Char :=
  '\n' :: List.replicate (2 * depth) ' '

mutual

/-- The written form of a value inside `depth` lists and objects. -/
def writeAt (depth : Nat) : Json → List Char
  | .null => "null".toList
  | .bool true => "true".toList
  | .bool false => "false".toList
  | .number value => Nat.toDigits 10 value
  | .string value => writeString value
  | .array [] => ['[', ']']
  | .array (item :: items) =>
    '[' :: (newLine (depth + 1) ++ writeAt (depth + 1) item ++ writeItems (depth + 1) items ++
      newLine depth ++ [']'])
  | .object [] => ['\x7b', '\x7d']
  | .object ((key, value) :: members) =>
    '\x7b' :: (newLine (depth + 1) ++ writeString key ++ [':', ' '] ++ writeAt (depth + 1) value ++
      writeMembers (depth + 1) members ++ newLine depth ++ ['\x7d'])

/-- The written form of the items of a list after the first. -/
def writeItems (depth : Nat) : List Json → List Char
  | [] => []
  | item :: items => ',' :: (newLine depth ++ writeAt depth item ++ writeItems depth items)

/-- The written form of the members of an object after the first. -/
def writeMembers (depth : Nat) : List (String × Json) → List Char
  | [] => []
  | (key, value) :: members =>
    ',' :: (newLine depth ++ writeString key ++ [':', ' '] ++ writeAt depth value ++
      writeMembers depth members)

end

/-- The text of a JSON document, without a line feed at the end. -/
def write (value : Json) : String :=
  String.ofList (writeAt 0 value)

end Json

end AgentKit
