/-
# Facts about the characters of a text

Whether something holds of every character of a text is found out by going through the text,
and never by going through all characters that there are. Letters and digits are known by
their code points.
-/

namespace AgentKit.Text

variable {p : Char → Prop} [DecidablePred p]

instance (priority := high) decidableForallMem (cs : List Char) : Decidable (∀ c ∈ cs, p c) :=
  List.decidableBAll p cs

instance (priority := high) decidableExistsMem (cs : List Char) : Decidable (∃ c ∈ cs, p c) :=
  List.decidableBEx p cs

instance (priority := high) decidableForallMemOption (end_ : Option Char) :
    Decidable (∀ c ∈ end_, p c) :=
  end_.decidableForallMem

variable {c : Char}

/-- A character for which something holds is none of those for which it does not. -/
theorem not_mem_of_holds (p : Char → Prop) {others : List Char} (holds : p c)
    (fails : ∀ d ∈ others, ¬ p d) : c ∉ others :=
  fun member => fails c member holds

theorem isAlpha_iff :
    c.isAlpha ↔ (65 ≤ c.toNat ∧ c.toNat ≤ 90) ∨ (97 ≤ c.toNat ∧ c.toNat ≤ 122) := by
  have letters : c.isAlpha = (decide (65 ≤ c.toNat ∧ c.toNat ≤ 90) ||
      (decide (97 ≤ c.toNat) && decide (c.toNat ≤ 122))) := rfl
  rw [letters, Bool.or_eq_true, Bool.and_eq_true, decide_eq_true_iff, decide_eq_true_iff,
    decide_eq_true_iff]

theorem isAlphanum_iff : c.isAlphanum ↔ c.isAlpha ∨ (48 ≤ c.toNat ∧ c.toNat ≤ 57) := by
  have digits : c.isAlphanum = (c.isAlpha ||
      (decide (48 ≤ c.toNat) && decide (c.toNat ≤ 57))) := rfl
  rw [digits, Bool.or_eq_true, Bool.and_eq_true, decide_eq_true_iff, decide_eq_true_iff]

end AgentKit.Text
