/-
# Trimming

A text is trimmed if white space stands neither at its start nor at its end. Trimming
yields such a text, leaves such a text alone, and does not depend on white space that
stands at the end already.
-/

import AgentKit.Proofs.Text.Members
import AgentKit.Text.Blank
import Mathlib.Data.List.DropRight

namespace AgentKit.Text

variable {cs : List Char} {c : Char}

/-- No white space stands at either end of a text. -/
def IsTrimmed (cs : List Char) : Prop :=
  (∀ c ∈ cs.head?, ¬ isBlank c) ∧ ∀ c ∈ cs.getLast?, ¬ isBlank c

instance : DecidablePred IsTrimmed :=
  fun _ => inferInstanceAs (Decidable (_ ∧ _))

theorem trimEnd_eq_rdropWhile (cs : List Char) : trimEnd cs = cs.rdropWhile isBlank := rfl

theorem trim_isInfix (cs : List Char) : trim cs <:+: cs := by
  have inner : trim cs <+: trimStart cs := by
    rw [trim, trimEnd_eq_rdropWhile]
    exact List.rdropWhile_prefix _ _
  exact inner.isInfix.trans (List.dropWhile_suffix _).isInfix

theorem mem_of_mem_trim (inside : c ∈ trim cs) : c ∈ cs :=
  (trim_isInfix cs).subset inside

theorem isTrimmed_trim (cs : List Char) : IsTrimmed (trim cs) := by
  have inner : trim cs <+: trimStart cs := by
    rw [trim, trimEnd_eq_rdropWhile]
    exact List.rdropWhile_prefix _ _
  constructor
  · intro c first
    obtain ⟨rest, whole⟩ := inner
    have also : (trimStart cs).head? = some c := by
      rw [← whole, List.head?_append, Option.mem_def.mp first, Option.some_or]
    have stops := List.head?_dropWhile_not isBlank cs
    rw [trimStart] at also
    rw [also] at stops
    simpa using stops
  · intro c last
    rw [trim, trimEnd_eq_rdropWhile] at last
    obtain ⟨filled, rfl⟩ := List.mem_getLast?_eq_getLast last
    exact List.rdropWhile_last_not isBlank _ filled

theorem trim_eq_self (trimmed : IsTrimmed cs) : trim cs = cs := by
  have start : trimStart cs = cs := by
    rw [trimStart, List.dropWhile_eq_self_iff]
    intro filled
    exact trimmed.1 _ (by simp [List.head?_eq_getElem?, filled])
  rw [trim, start, trimEnd_eq_rdropWhile, List.rdropWhile_eq_self_iff]
  intro filled
  exact trimmed.2 _ (by simp [List.getLast?_eq_some_getLast filled])

/-- Trimming leaves nothing of white space, and of nothing else. -/
theorem trim_eq_nil_iff : trim cs = [] ↔ ∀ c ∈ cs, isBlank c := by
  rw [trim, trimEnd_eq_rdropWhile, List.rdropWhile_eq_nil_iff]
  constructor
  · intro blank
    cases start : trimStart cs with
    | nil => exact List.dropWhile_eq_nil_iff.mp start
    | cons first rest =>
        -- What is left begins with a character that is not white space.
        have stops := List.head?_dropWhile_not isBlank cs
        rw [← trimStart, start] at stops
        rw [start] at blank
        simp [blank first List.mem_cons_self] at stops
  · intro blank c inside
    exact blank c ((List.dropWhile_suffix isBlank).subset inside)

/-- White space at the end of a text does not matter. -/
theorem trim_append_blank (blank : isBlank c) (cs : List Char) : trim (cs ++ [c]) = trim cs := by
  rw [trim, trim, trimStart, trimStart, List.dropWhile_append, trimEnd_eq_rdropWhile,
    trimEnd_eq_rdropWhile]
  cases start : cs.dropWhile isBlank with
  | nil => simp [blank]
  | cons first rest =>
      rw [if_neg (by simp)]
      exact List.rdropWhile_concat_pos isBlank _ _ blank

end AgentKit.Text
