/-
# Decimal notation

The usual notation of decimal fractions: an optional sign, digits with at most
one point among or beside them, and an optional exponent. The module reads such a
notation as an exact decimal number. Words for infinity and for what is not a
number are recognised separately.
-/

namespace AgentKit.Number

/-- The number `± coefficient · 10 ^ exponent`. The sign of zero is kept. -/
structure Decimal where
  negative : Bool
  coefficient : Nat
  exponent : Int
  deriving DecidableEq, Repr

/-- Whether a character is one of the ten digits. -/
def isDigit (c : Char) : Bool :=
  '0' ≤ c && c ≤ '9'

/-- The value of a digit. -/
def digitValue (c : Char) : Nat :=
  c.toNat - '0'.toNat

/-- The number that a list of digits writes. -/
def digitsValue (digits : List Char) : Nat :=
  digits.foldl (fun value c => value * 10 + digitValue c) 0

/-- Take the sign off a notation: whether it is a minus sign, and the rest. -/
def splitSign : List Char → Bool × List Char
  | '-' :: rest => (true, rest)
  | '+' :: rest => (false, rest)
  | rest => (false, rest)

/-- The number that one or more digits write. -/
def readDigits (cs : List Char) : Option Nat :=
  if cs.isEmpty || !cs.all isDigit then none else some (digitsValue cs)

/-- The number that an optional sign and one or more digits write. -/
def readSigned (cs : List Char) : Option Int :=
  let (negative, digits) := splitSign cs
  (readDigits digits).map fun value => if negative then -(value : Int) else value

/-- The exponent that follows the digits of a notation: nothing, or the letter e
and a signed number. -/
def readExponent : List Char → Option Int
  | [] => some 0
  | c :: rest => if c = 'e' || c = 'E' then readSigned rest else none

/-- The digits after the point of a notation, and what follows them. Without a
point there are none. -/
def splitFraction : List Char → List Char × List Char
  | '.' :: rest => (rest.takeWhile isDigit, rest.dropWhile isDigit)
  | rest => ([], rest)

/-- The decimal number that a text writes. There must be a digit before or after
the point. -/
def Decimal.read (cs : List Char) : Option Decimal :=
  let (negative, unsigned) := splitSign cs
  let whole := unsigned.takeWhile isDigit
  let (fraction, rest) := splitFraction (unsigned.dropWhile isDigit)
  if whole.isEmpty && fraction.isEmpty then none
  else
    (readExponent rest).map fun exponent =>
      { negative := negative
        coefficient := digitsValue (whole ++ fraction)
        exponent := exponent - fraction.length }

/-- The words for values that are not finite, in lower case. -/
def nonFiniteWords : List String := ["inf", "infinity", "nan"]

/-- Whether a text is the notation of a number in the widest sense: a decimal
number, or a word for a value that is not finite, with an optional sign and in
any case of letters. -/
def isNumberNotation (cs : List Char) : Bool :=
  (Decimal.read cs).isSome ||
    nonFiniteWords.contains (String.ofList ((splitSign cs).2.map Char.toLower))

end AgentKit.Number
