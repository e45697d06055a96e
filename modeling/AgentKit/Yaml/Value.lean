/-
# Values of documents

A document without anchors, aliases and styles: what it means. A tag of the
document's own makes a tagged value, which is neither text nor a list nor a
mapping. No mapping that was read has the same key twice.
-/

import AgentKit.Yaml.Scalar

namespace AgentKit.Yaml

/-- A value of a document. -/
inductive Value where
  | null
  | bool (value : Bool)
  | integer (value : Int)
  | float (value : Float)
  | string (text : String)
  | sequence (items : List Value)
  | mapping (entries : List (Value × Value))
  | tagged (tag : String) (value : Value)
  deriving Inhabited, Repr

namespace Value

mutual

/-- Whether two values count as the same key. The order of the entries of a
mapping does not matter. -/
def equals : Value → Value → Bool
  | .null, .null => true
  | .bool a, .bool b => a == b
  | .integer a, .integer b => a == b
  | .float a, .float b => a.equals b
  | .string a, .string b => a == b
  | .sequence a, .sequence b => itemsEqual a b
  | .mapping a, .mapping b => a.length == b.length && entriesAmong a b
  | .tagged s a, .tagged t b => s == t && equals a b
  | _, _ => false

/-- Whether two lists have equal values in the same places. -/
def itemsEqual : List Value → List Value → Bool
  | [], [] => true
  | a :: as, b :: bs => equals a b && itemsEqual as bs
  | _, _ => false

/-- Whether every entry of a list has an equal one in another. -/
def entriesAmong : List (Value × Value) → List (Value × Value) → Bool
  | [], _ => true
  | (key, value) :: entries, others => entryAmong key value others && entriesAmong entries others

/-- Whether a list has an entry with a given key and value. -/
def entryAmong (key value : Value) : List (Value × Value) → Bool
  | [] => false
  | (otherKey, otherValue) :: others =>
    (equals key otherKey && equals value otherValue) || entryAmong key value others

end

/-- The value under a key that is a text. -/
def find? (entries : List (Value × Value)) (key : String) : Option Value :=
  (entries.find? fun entry =>
    match entry.1 with
    | .string text => text == key
    | _ => false).map (·.2)

/-- A value without the tags around it. -/
def untagged : Value → Value
  | .tagged _ value => untagged value
  | value => value

end Value

end AgentKit.Yaml
