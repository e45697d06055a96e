/-
# Decimal digits

The digits of a number write it, with or without zeros in front. Without them the first digit
is no zero, unless the number is zero.
-/

import AgentKit.Number.Decimal
import AgentKit.Text.Blank
import Mathlib.Data.List.TakeWhile

namespace AgentKit.Number

variable {c : Char} {cs rest : List Char} {n : Nat}

theorem isDigit_of_mem_toDigits (member : c ∈ Nat.toDigits 10 n) : isDigit c :=
  Nat.isDigit_of_mem_toDigits (by decide) (by decide) member

theorem toList_toString (n : Nat) : (toString n).toList = Nat.toDigits 10 n := by
  simp [Nat.repr]

theorem not_isBlank_of_isDigit (digit : isDigit c) : Text.isBlank c = false := by
  simp only [isDigit, Bool.and_eq_true, decide_eq_true_eq] at digit
  have bounds : 48 ≤ c.toNat ∧ c.toNat ≤ 57 := digit
  simp only [Text.isBlank, Text.blankRanges, List.any_cons, List.any_nil, Bool.or_false,
    Bool.or_eq_false_iff, Bool.and_eq_false_iff, decide_eq_false_iff_not]
  omega

theorem digitsValue_eq_ofDigitChars (cs : List Char) :
    digitsValue cs = Nat.ofDigitChars 10 cs 0 := by
  have same : (fun (value : Nat) (c : Char) => value * 10 + digitValue c) =
      fun sofar c => 10 * sofar + (c.toNat - '0'.toNat) := by
    funext value c
    rw [Nat.mul_comm, digitValue]
  rw [digitsValue, Nat.ofDigitChars_eq_foldl, same]

theorem digitsValue_toDigits (zeros n : Nat) :
    digitsValue (List.replicate zeros '0' ++ Nat.toDigits 10 n) = n := by
  rw [digitsValue_eq_ofDigitChars, Nat.ofDigitChars_append, Nat.ofDigitChars_replicate_zero,
    Nat.mul_zero, Nat.ofDigitChars_ten_toDigits]

theorem digitsValue_toDigits_self (n : Nat) : digitsValue (Nat.toDigits 10 n) = n :=
  digitsValue_toDigits 0 n

/-- Only zero begins with a zero. -/
theorem head?_toDigits (positive : 0 < n) : (Nat.toDigits 10 n).head? ≠ some '0' := by
  induction n using Nat.strongRecOn with
  | _ n ih =>
    by_cases small : n < 10
    · rw [Nat.toDigits_of_lt_base small, List.head?_cons]
      have digits : ∀ n < 10, 0 < n → some n.digitChar ≠ some '0' := by decide
      exact digits n small positive
    · have large : 10 ≤ n := Nat.not_lt.mp small
      have first := ih (n / 10) (by omega) (by omega)
      obtain ⟨c, cs, shape⟩ := List.exists_cons_of_ne_nil (@Nat.toDigits_ne_nil (n / 10) 10)
      rw [Nat.toDigits_of_base_le (by decide) large]
      rw [shape] at first ⊢
      exact first

/-! ## Digits in front of something else -/

theorem takeWhile_digits (digits : cs.all isDigit) (other : ∀ c ∈ rest.head?, isDigit c = false)
    {width : Nat} (enough : cs.length ≤ width) :
    ((cs ++ rest).take width).takeWhile isDigit = cs := by
  have none : (rest.take (width - cs.length)).takeWhile isDigit = [] := by
    cases rest with
    | nil => simp
    | cons c rest =>
        cases width - cs.length with
        | zero => rfl
        | succ more => simp [other c rfl]
  rw [List.take_append, List.take_of_length_le enough,
    List.takeWhile_append_of_pos (List.all_eq_true.mp digits), none, List.append_nil]

end AgentKit.Number
