/-
# Reading numbers back

The digits of a number are a plain scalar, and what they write is the number: no other base
is taken for theirs, because only zero begins with a zero.
-/

import AgentKit.Proofs.Number.Digits
import AgentKit.Proofs.Yaml.Meaning
import AgentKit.Proofs.Yaml.Scalar.Reading

namespace AgentKit.Yaml

open Number

variable {c : Char} {cs : List Char}

/-! ## The value of digits -/

theorem digitOf?_of_isDigit (digit : isDigit c) : digitOf? 10 c = some (digitValue c) := by
  have decimal : ('0' ≤ c && c ≤ '9') = true := digit
  have small : digitValue c < 10 := by
    simp only [isDigit, Bool.and_eq_true, decide_eq_true_eq] at digit
    have bounds : 48 ≤ c.toNat ∧ c.toNat ≤ 57 := digit
    simp only [digitValue, show '0'.toNat = 48 from rfl]
    omega
  simp only [digitOf?, decimal, if_true]
  exact if_pos small

theorem naturalOf?_of_digits (filled : cs ≠ []) (digits : cs.all isDigit) :
    naturalOf? 10 cs = some (digitsValue cs) := by
  have folds (cs : List Char) (digits : cs.all isDigit) (before : Nat) :
      cs.foldlM (fun value c => (digitOf? 10 c).map (value * 10 + ·)) before =
        some (cs.foldl (fun value c => value * 10 + digitValue c) before) := by
    induction cs generalizing before with
    | nil => rfl
    | cons c cs ih =>
        rw [List.all_cons, Bool.and_eq_true] at digits
        rw [List.foldlM_cons, digitOf?_of_isDigit digits.1]
        exact ih digits.2 _
  rw [naturalOf?, if_neg (by simpa using filled), folds cs digits]
  rfl

/-- Digits that do not begin with a zero are in base ten. -/
theorem magnitudeOf?_of_digits (filled : cs ≠ []) (digits : cs.all isDigit)
    (first : cs.head? ≠ some '0') : magnitudeOf? cs = some (digitsValue cs) := by
  have unpadded : isZeroPadded cs = false := by
    unfold isZeroPadded
    rw [splitSign_of_digits digits]
    split
    · next padded => exact absurd (by rw [show cs = _ from padded]; rfl) first
    · rfl
  unfold magnitudeOf?
  split
  · exact absurd rfl first
  · exact absurd rfl first
  · exact absurd rfl first
  · rw [unpadded, naturalOf?_of_digits filled digits]
    rfl

theorem all_isDigit_toDigits (n : Nat) : (Nat.toDigits 10 n).all isDigit :=
  List.all_eq_true.mpr fun _ => isDigit_of_mem_toDigits

/-- A number is read back from its digits. -/
theorem unsignedOf?_toDigits (n : Nat) : unsignedOf? (Nat.toDigits 10 n) = some n := by
  cases n with
  | zero => rfl
  | succ n =>
      have digits := all_isDigit_toDigits (n + 1)
      have means := magnitudeOf?_of_digits Nat.toDigits_ne_nil digits (head?_toDigits n.succ_pos)
      rw [digitsValue_toDigits_self] at means
      unfold unsignedOf?
      split
      · next signed =>
        rw [signed] at digits
        contradiction
      · exact means

/-! ## Digits as a scalar -/

theorem of_isDigit (digit : isDigit c) :
    isPrintable c ∧ isBreak c = false ∧ isSolid c ∧
      c ∉ leadingIndicators ++ ['?', ':', '-'] := by
  have other : c ∉ [' ', '\t', '\n', '\u2028', '\u2029'] :=
    Text.not_mem_of_holds (isDigit ·) digit (by decide)
  simp only [List.mem_cons, List.not_mem_nil, or_false, not_or] at other
  refine ⟨?_, by simp [isBreak, other], by simp [isSolid, isBlank, isBreak, other],
    Text.not_mem_of_holds (isDigit ·) digit (by decide)⟩
  simp only [isDigit, Bool.and_eq_true, decide_eq_true_eq] at digit
  have bounds : 48 ≤ c.toNat ∧ c.toNat ≤ 57 := digit
  simp only [isPrintable, printableRanges, List.any_cons, List.any_nil, Bool.or_false,
    Bool.or_eq_true, Bool.and_eq_true, decide_eq_true_eq]
  omega

theorem hasInnerIndicator_of_digits (digits : cs.all isDigit) (previous : Char) :
    hasInnerIndicator previous cs = false := by
  induction cs generalizing previous with
  | nil => rfl
  | cons c cs ih =>
      rw [List.all_cons, Bool.and_eq_true] at digits
      have other := (of_isDigit digits.1).2.2.2
      simp only [leadingIndicators, List.mem_append, List.mem_cons, not_or] at other
      simp [hasInnerIndicator, other, ih digits.2]

theorem fitsPlain_of_digits (digits : (c :: cs).all isDigit) : FitsPlain c cs := by
  have all := List.all_eq_true.mp digits
  obtain ⟨-, -, solid, other⟩ := of_isDigit (all c List.mem_cons_self)
  rw [List.mem_append, not_or] at other
  refine ⟨fun d member => ⟨(of_isDigit (all d member)).1, (of_isDigit (all d member)).2.1⟩,
    ⟨solid, other.1⟩, fun known => absurd known other.2, ?_, ?_⟩
  · rw [List.all_cons, Bool.and_eq_true] at digits
    exact hasInnerIndicator_of_digits digits.2 c
  · cases last : cs.getLast? with
    | none => exact solid
    | some d =>
        have inside : d ∈ c :: cs := List.mem_cons_of_mem c (List.mem_of_getLast? last)
        exact (of_isDigit (all d inside)).2.2.1

/-- The digits of a number are read back where they are written plainly. -/
theorem isScalarLine_toDigits (n : Nat) :
    IsScalarLine (Nat.toDigits 10 n ++ ['\n']) .plain (Nat.toDigits 10 n) := by
  have digits := all_isDigit_toDigits n
  obtain ⟨c, cs, shape⟩ := List.exists_cons_of_ne_nil (@Nat.toDigits_ne_nil n 10)
  rw [shape] at digits ⊢
  exact (fitsPlain_of_digits digits).isScalarLine

end AgentKit.Yaml
