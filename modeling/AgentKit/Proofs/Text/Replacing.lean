/-
# Replacing one text in another

A replacement goes through a text from left to right. Where the pattern does not begin, a
character is kept; where it does, the replacement takes its place, and the search goes on behind
it. So what does not hold the first character of the pattern is kept as it is.
-/

import AgentKit.Text.Substring
import Mathlib.Data.List.Basic

namespace AgentKit.Text

theorem occursIn_iff {pattern cs : List Char} : occursIn pattern cs ↔ pattern <:+: cs := by
  induction cs with
  | nil => rw [occursIn, List.isEmpty_iff, List.infix_nil]
  | cons c cs ih =>
      rw [occursIn, Bool.or_eq_true, List.isPrefixOf_iff_prefix, ih, List.infix_cons_iff]

/-- Characters that are skipped have no part in a replacement. -/
theorem replaceFrom_eq_drop (pattern replacement : List Char) (skip : Nat) (cs : List Char) :
    replaceFrom pattern replacement skip cs =
      replaceFrom pattern replacement 0 (cs.drop skip) := by
  induction skip generalizing cs with
  | zero => rw [List.drop_zero]
  | succ skip ih =>
      cases cs with
      | nil => rfl
      | cons c cs =>
          rw [replaceFrom, List.drop_succ_cons]
          exact ih cs

theorem replaceAll_of_not_isPrefix {pattern : List Char} {c : Char} {cs : List Char}
    (other : ¬ pattern <+: c :: cs) (replacement : List Char) :
    replaceAll pattern replacement (c :: cs) = c :: replaceAll pattern replacement cs := by
  rw [replaceAll, replaceFrom, if_neg (by simpa using other), replaceAll]

theorem replaceAll_append {pattern : List Char} (some_pattern : pattern ≠ [])
    (replacement cs : List Char) :
    replaceAll pattern replacement (pattern ++ cs) =
      replacement ++ replaceAll pattern replacement cs := by
  obtain ⟨c, rest, rfl⟩ := List.exists_cons_of_ne_nil some_pattern
  rw [List.cons_append, replaceAll, replaceFrom, if_pos (by simp), replaceFrom_eq_drop,
    replaceAll]
  simp

/-- What does not hold the first character of the pattern is kept. -/
theorem replaceAll_append_of_notMem {first : Char} {before : List Char} (absent : first ∉ before)
    (pattern replacement cs : List Char) :
    replaceAll (first :: pattern) replacement (before ++ cs) =
      before ++ replaceAll (first :: pattern) replacement cs := by
  induction before with
  | nil => rfl
  | cons c before ih =>
      rw [List.mem_cons, not_or] at absent
      have other : ¬ first :: pattern <+: c :: (before ++ cs) := by
        rw [List.cons_prefix_cons]
        exact fun begins => absent.1 begins.1
      rw [List.cons_append, replaceAll_of_not_isPrefix other, ih absent.2, List.cons_append]

/-- A character of the result comes from the replacement or from the text. -/
theorem mem_replaceFrom {pattern replacement : List Char} {skip : Nat} {cs : List Char} {d : Char}
    (inside : d ∈ replaceFrom pattern replacement skip cs) : d ∈ replacement ∨ d ∈ cs := by
  fun_induction replaceFrom pattern replacement skip cs with
  | case1 => exact .inr inside
  | case2 skip c cs ih => exact (ih inside).imp_right (List.mem_cons_of_mem c)
  | case3 c cs begins ih =>
      rcases List.mem_append.mp inside with here | later
      · exact .inl here
      · exact (ih later).imp_right (List.mem_cons_of_mem c)
  | case4 c cs begins ih =>
      rcases List.mem_cons.mp inside with rfl | later
      · exact .inr List.mem_cons_self
      · exact (ih later).imp_right (List.mem_cons_of_mem c)

end AgentKit.Text
