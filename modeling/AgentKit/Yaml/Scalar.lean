/-
# What plain scalars mean

A plain scalar that looks like null, a truth value or a number is one; any other
is text. Integers may be decimal, hexadecimal, octal or binary. Digits that begin
with a zero are text, so that such codes keep their zeros.
-/

import AgentKit.Number.Binary64

namespace AgentKit.Yaml

open AgentKit.Number

/-- A number with a fraction or an exponent, or one of the values that are not
finite. -/
inductive Float where
  | finite (value : Binary64)
  | infinite (negative : Bool)
  | notANumber
  deriving DecidableEq, Repr

/-- Whether two such numbers count as the same key. -/
def Float.equals : Float → Float → Bool
  | .finite a, .finite b => a.equals b
  | a, b => a = b

/-- What a plain scalar means. -/
inductive Meaning where
  | null
  | bool (value : Bool)
  | integer (value : Int)
  | float (value : Float)
  | text
  deriving DecidableEq, Repr

/-- The spellings of null. -/
def nullWords : List String := ["null", "Null", "NULL", "~"]

/-- Whether a text is a spelling of null. -/
def isNullWord (cs : List Char) : Bool :=
  nullWords.contains (String.ofList cs)

/-- The truth value that a text spells. -/
def boolOf? (cs : List Char) : Option Bool :=
  if ["true", "True", "TRUE"].contains (String.ofList cs) then some true
  else if ["false", "False", "FALSE"].contains (String.ofList cs) then some false
  else none

/-- The value of a digit in a base of at most sixteen. -/
def digitOf? (base : Nat) (c : Char) : Option Nat :=
  let value :=
    if '0' ≤ c && c ≤ '9' then c.toNat - '0'.toNat
    else if 'a' ≤ c && c ≤ 'f' then c.toNat - 'a'.toNat + 10
    else if 'A' ≤ c && c ≤ 'F' then c.toNat - 'A'.toNat + 10
    else base
  if value < base then some value else none

/-- The number that one or more digits write in a base. -/
def naturalOf? (base : Nat) (cs : List Char) : Option Nat :=
  if cs.isEmpty then none
  else cs.foldlM (fun value c => (digitOf? base c).map (value * base + ·)) 0

/-- Whether a text consists of several digits, the first of them a zero, after an
optional sign. -/
def isZeroPadded (cs : List Char) : Bool :=
  match (splitSign cs).2 with
  | '0' :: c :: rest => (c :: rest).all isDigit
  | _ => false

/-- The number that a text without sign writes, in the base that its first two
characters say, or in base ten. -/
def magnitudeOf? : List Char → Option Nat
  | '0' :: 'x' :: digits => naturalOf? 16 digits
  | '0' :: 'o' :: digits => naturalOf? 8 digits
  | '0' :: 'b' :: digits => naturalOf? 2 digits
  | digits => if isZeroPadded digits then none else naturalOf? 10 digits

/-- The integer without a minus sign that a text writes. -/
def unsignedOf? : List Char → Option Nat
  | '+' :: rest => magnitudeOf? rest
  | cs => magnitudeOf? cs

/-- The integer that a text writes. -/
def integerOf? : List Char → Option Int
  | '-' :: rest => (magnitudeOf? rest).map fun value => -(value : Int)
  | cs => (unsignedOf? cs).map Int.ofNat

/-- Whether an integer can be the value of a scalar. -/
def isIntegerValue (value : Int) : Bool :=
  -(Nat.pow 2 63) ≤ value && value < Nat.pow 2 64

/-- Whether an integer notation is taken for an integer at all. Beyond this range it
is read as a number with a fraction. -/
def isIntegerNotation (value : Int) : Bool :=
  -(Nat.pow 2 127) ≤ value && value < Nat.pow 2 128

/-- The notation of a number after a plus sign, if there is one. A second sign is
refused. -/
def withoutPlus? : List Char → Option (List Char)
  | '+' :: '+' :: _ | '+' :: '-' :: _ => none
  | '+' :: rest => some rest
  | cs => some cs

/-- The value of a scalar that is read as a number with a fraction. A decimal
number that is too large is none. -/
def floatOf? (cs : List Char) : Option Float := do
  let unsigned ← withoutPlus? cs
  if [".inf", ".Inf", ".INF"].contains (String.ofList unsigned) then some (.infinite false)
  else if ["-.inf", "-.Inf", "-.INF"].contains (String.ofList cs) then some (.infinite true)
  else if [".nan", ".NaN", ".NAN"].contains (String.ofList cs) then some .notANumber
  else .finite <$> ((← Decimal.read unsigned) |> Binary64.ofDecimal)

/-- What a plain scalar means where it is not an integer. -/
def meaningBeyondIntegers (cs : List Char) : Meaning :=
  if isZeroPadded cs then .text
  else
    match floatOf? cs with
    | some value => .float value
    | none => .text

/-- What a plain scalar means. -/
def meaningOf (cs : List Char) : Meaning :=
  if cs.isEmpty || isNullWord cs then .null
  else
    match boolOf? cs with
    | some value => .bool value
    | none =>
      match integerOf? cs with
      | some value =>
        if isIntegerNotation value then .integer value else meaningBeyondIntegers cs
      | none => meaningBeyondIntegers cs

end AgentKit.Yaml
