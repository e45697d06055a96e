/-
# Binary floating-point numbers

The finite numbers of the binary format with 64 bits, and the nearest one to a
decimal number. All arithmetic is on natural numbers, so the result is exact;
of two numbers at the same distance the one with the even significand is taken.
-/

import AgentKit.Number.Decimal

namespace AgentKit.Number

/-- The number `± significand · 2 ^ exponent`. The constructor functions below
yield significands of less than 53 bits at the least exponent, and of 53 bits at
any other, so equal numbers other than zero are equal values. -/
structure Binary64 where
  negative : Bool
  significand : Nat
  exponent : Int
  deriving DecidableEq, Repr

namespace Binary64

/-- The least exponent of a number. -/
def minExponent : Int := -1074

/-- The greatest exponent of a number. -/
def maxExponent : Int := 971

/-- The number of bits of a significand. -/
def precision : Nat := 53

/-- Round a quotient to the nearest natural number, a half to the even one. -/
def roundQuotient (numerator denominator : Nat) : Nat :=
  let quotient := numerator / denominator
  let twice := 2 * (numerator % denominator)
  if twice > denominator || (twice = denominator && quotient % 2 = 1) then quotient + 1
  else quotient

/-- A quotient multiplied by a power of two, as another quotient. -/
def scale (numerator denominator : Nat) (power : Int) : Nat × Nat :=
  if power ≥ 0 then (numerator * Nat.pow 2 power.toNat, denominator)
  else (numerator, denominator * Nat.pow 2 (-power).toNat)

/-- The exponent at which a positive quotient has a significand of full length, but
not less than the least exponent. -/
def exponentOf (numerator denominator : Nat) : Int :=
  let estimate : Int := Nat.log2 numerator - Nat.log2 denominator - precision
  let (scaled, unit) := scale numerator denominator (-estimate)
  max minExponent (if scaled / unit ≥ Nat.pow 2 precision then estimate + 1 else estimate)

/-- The nearest number to a positive quotient, unless it is too large. -/
def ofQuotient (negative : Bool) (numerator denominator : Nat) : Option Binary64 :=
  let exponent := exponentOf numerator denominator
  let (scaled, unit) := scale numerator denominator (-exponent)
  let rounded := roundQuotient scaled unit
  let (significand, exponent) :=
    if rounded = Nat.pow 2 precision then (Nat.pow 2 (precision - 1), exponent + 1)
    else (rounded, exponent)
  if exponent > maxExponent then none else some ⟨negative, significand, exponent⟩

/-- The number zero with a sign. -/
def zero (negative : Bool) : Binary64 := ⟨negative, 0, minExponent⟩

/-- A power of ten above which every decimal number is too large, whatever its
digits. -/
def hugePower : Int := 310

/-- A power of ten below which every decimal number is rounded to zero. -/
def tinyPower : Int := -330

/-- The nearest number to a decimal number, unless it is too large. -/
def ofDecimal (decimal : Decimal) : Option Binary64 :=
  let digits : Int := (Nat.toDigits 10 decimal.coefficient).length
  if decimal.coefficient = 0 || digits + decimal.exponent < tinyPower then
    some (zero decimal.negative)
  else if digits + decimal.exponent > hugePower then none
  else if decimal.exponent ≥ 0 then
    ofQuotient decimal.negative (decimal.coefficient * Nat.pow 10 decimal.exponent.toNat) 1
  else ofQuotient decimal.negative decimal.coefficient (Nat.pow 10 (-decimal.exponent).toNat)

/-- Whether two numbers are equal. The sign of zero does not matter. -/
def equals (a b : Binary64) : Bool :=
  a = b || (a.significand = 0 && b.significand = 0)

end Binary64

end AgentKit.Number
