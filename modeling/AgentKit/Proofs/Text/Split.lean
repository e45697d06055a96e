/-
# Cutting and joining

Cutting a text at a character and joining the pieces with that character are inverse
to each other, as long as no piece has the character in it. The pieces of two texts
with the character between them are the pieces of the one and then those of the other.
-/

import AgentKit.Text.Lines
import Mathlib.Data.List.Basic

namespace AgentKit.Text

theorem splitWhere_ne_nil (p : Char → Bool) (cs : List Char) : splitWhere p cs ≠ [] := by
  cases cs with
  | nil => simp [splitWhere]
  | cons c cs =>
      rw [splitWhere]
      split
      · simp
      · split <;> simp

/-- A character at which a text is cut begins a new piece. -/
theorem splitWhere_cons_of_pos {p : Char → Bool} {c : Char} (cut : p c) (cs : List Char) :
    splitWhere p (c :: cs) = [] :: splitWhere p cs := by
  rw [splitWhere, if_pos cut]

/-- Any other character belongs to the first piece. -/
theorem splitWhere_cons_of_neg {p : Char → Bool} {c : Char} (kept : ¬ p c) {cs : List Char}
    {piece : List Char} {pieces : List (List Char)} (rest : splitWhere p cs = piece :: pieces) :
    splitWhere p (c :: cs) = (c :: piece) :: pieces := by
  rw [splitWhere, if_neg kept, rest]

/-- A text without a separator is a single piece. -/
theorem splitWhere_of_forall_not {p : Char → Bool} {cs : List Char} (kept : ∀ c ∈ cs, ¬ p c) :
    splitWhere p cs = [cs] := by
  induction cs with
  | nil => rfl
  | cons c cs ih =>
      obtain ⟨first, others⟩ := List.forall_mem_cons.mp kept
      exact splitWhere_cons_of_neg first (ih others)

theorem splitWhere_append_congr {p : Char → Bool} {cs other : List Char}
    (same : splitWhere p cs = splitWhere p other) (before : List Char) :
    splitWhere p (before ++ cs) = splitWhere p (before ++ other) := by
  induction before with
  | nil => exact same
  | cons c before ih => simp only [List.cons_append, splitWhere, ih]

theorem splitWhere_append_cons {p : Char → Bool} {c : Char} (cut : p c) (before after : List Char) :
    splitWhere p (before ++ c :: after) = splitWhere p before ++ splitWhere p after := by
  induction before with
  | nil => rw [List.nil_append, splitWhere_cons_of_pos cut]; rfl
  | cons d before ih =>
      rw [List.cons_append]
      by_cases also : p d
      · rw [splitWhere_cons_of_pos also, splitWhere_cons_of_pos also, ih, List.cons_append]
      · obtain ⟨piece, pieces, first⟩ := List.exists_cons_of_ne_nil (splitWhere_ne_nil p before)
        have whole : splitWhere p (before ++ c :: after) =
            piece :: (pieces ++ splitWhere p after) := by
          rw [ih, first, List.cons_append]
        rw [splitWhere_cons_of_neg also whole, splitWhere_cons_of_neg also first,
          List.cons_append]

/-- The characters of a piece are characters of the text at which it was not cut. -/
theorem mem_and_not_of_mem_splitWhere {p : Char → Bool} {cs : List Char} {piece : List Char}
    (member : piece ∈ splitWhere p cs) {c : Char} (inside : c ∈ piece) : c ∈ cs ∧ ¬ p c := by
  induction cs generalizing piece with
  | nil => simp_all [splitWhere]
  | cons d cs ih =>
      by_cases cut : p d
      · rw [splitWhere_cons_of_pos cut, List.mem_cons] at member
        rcases member with rfl | member
        · simp at inside
        · exact (ih member inside).imp_left (List.mem_cons_of_mem _)
      · obtain ⟨first, others, rest⟩ := List.exists_cons_of_ne_nil (splitWhere_ne_nil p cs)
        rw [splitWhere_cons_of_neg cut rest, List.mem_cons] at member
        rw [rest] at ih
        rcases member with rfl | member
        · rcases List.mem_cons.mp inside with rfl | inside
          · exact ⟨List.mem_cons_self, cut⟩
          · exact (ih List.mem_cons_self inside).imp_left (List.mem_cons_of_mem _)
        · exact (ih (List.mem_cons_of_mem _ member) inside).imp_left (List.mem_cons_of_mem _)

theorem splitAt_append_cons (sep : Char) (before after : List Char) :
    splitAt sep (before ++ sep :: after) = splitAt sep before ++ splitAt sep after :=
  splitWhere_append_cons (by simp) before after

/-- A text without the separator is one piece. -/
theorem splitAt_eq_singleton {sep : Char} {cs : List Char} (absent : sep ∉ cs) :
    splitAt sep cs = [cs] := by
  apply splitWhere_of_forall_not
  intro c inside cut
  exact absent (eq_of_beq cut ▸ inside)

/-- Joining the pieces of a text gives the text. -/
theorem intercalate_splitAt (sep : Char) (cs : List Char) :
    [sep].intercalate (splitAt sep cs) = cs := by
  induction cs with
  | nil => rfl
  | cons c cs ih =>
      obtain ⟨first, others, rest⟩ :=
        List.exists_cons_of_ne_nil (splitWhere_ne_nil (· == sep) cs)
      rw [splitAt] at ih ⊢
      by_cases cut : c = sep
      · rw [splitWhere_cons_of_pos (by simpa using cut),
          List.intercalate_cons_of_ne_nil (splitWhere_ne_nil _ _), ih, cut]
        rfl
      · rw [splitWhere_cons_of_neg (by simpa using cut) rest, List.intercalate_cons_cons_left,
          ← rest, ih]

/-- The pieces of joined texts are the pieces of the first text, then those of the next one, and
so on. -/
theorem splitAt_intercalate_eq_flatMap (sep : Char) {texts : List (List Char)}
    (filled : texts ≠ []) :
    splitAt sep ([sep].intercalate texts) = texts.flatMap (splitAt sep) := by
  induction texts with
  | nil => exact absurd rfl filled
  | cons text texts ih =>
      by_cases last : texts = []
      · rw [last, List.intercalate_singleton, List.flatMap_cons, List.flatMap_nil,
          List.append_nil]
      · rw [List.intercalate_cons_of_ne_nil last, List.append_assoc, List.singleton_append,
          splitAt_append_cons, ih last, List.flatMap_cons]

/-- Where no text has the separator, the pieces are the texts. -/
theorem flatMap_splitAt_eq_self {sep : Char} {texts : List (List Char)}
    (absent : ∀ text ∈ texts, sep ∉ text) : texts.flatMap (splitAt sep) = texts := by
  induction texts with
  | nil => rfl
  | cons text texts ih =>
      obtain ⟨first, others⟩ := List.forall_mem_cons.mp absent
      rw [List.flatMap_cons, splitAt_eq_singleton first, ih others, List.singleton_append]

/-- The pieces of joined texts are these texts, if none of them has the separator. -/
theorem splitAt_intercalate {sep : Char} {pieces : List (List Char)} (some_piece : pieces ≠ [])
    (absent : ∀ piece ∈ pieces, sep ∉ piece) :
    splitAt sep ([sep].intercalate pieces) = pieces := by
  rw [splitAt_intercalate_eq_flatMap sep some_piece, flatMap_splitAt_eq_self absent]

/-- Separators at the end of a text give as many empty pieces. -/
theorem splitAt_append_replicate (sep : Char) (cs : List Char) (count : ℕ) :
    splitAt sep (cs ++ List.replicate count sep) =
      splitAt sep cs ++ List.replicate count [] := by
  induction count generalizing cs with
  | zero => simp
  | succ count ih =>
      have empty : splitAt sep [] = [[]] := rfl
      have moved : cs ++ List.replicate (count + 1) sep =
          cs ++ sep :: ([] ++ List.replicate count sep) := by
        rw [List.replicate_succ, List.nil_append]
      rw [moved, splitAt_append_cons, ih, empty, List.singleton_append, ← List.replicate_succ]

/-- Joining fewer pieces gives a shorter text that begins in the same way. -/
theorem intercalate_isPrefix {sep : List Char} {short long : List (List Char)}
    (begins : short <+: long) : sep.intercalate short <+: sep.intercalate long := by
  induction short generalizing long with
  | nil => exact List.nil_prefix
  | cons piece short ih =>
      obtain ⟨rest, rfl⟩ := begins
      rw [List.cons_append]
      by_cases last : short = []
      · subst last
        by_cases finished : rest = []
        · simp [finished]
        · rw [List.nil_append, List.intercalate_singleton,
            List.intercalate_cons_of_ne_nil finished, List.append_assoc]
          exact List.prefix_append _ _
      · rw [List.intercalate_cons_of_ne_nil last,
          List.intercalate_cons_of_ne_nil (by simp [last]), List.append_assoc, List.append_assoc,
          List.prefix_append_right_inj, List.prefix_append_right_inj]
        exact ih (List.prefix_append _ _)

/-- What stands between separators belongs to one of the pieces. -/
theorem mem_intercalate {sep : List Char} {pieces : List (List Char)} {c : Char}
    (inside : c ∈ sep.intercalate pieces) : c ∈ sep ∨ ∃ piece ∈ pieces, c ∈ piece := by
  induction pieces with
  | nil => simp at inside
  | cons piece pieces ih =>
      by_cases last : pieces = []
      · subst last
        exact .inr ⟨piece, List.mem_singleton_self _, by simpa using inside⟩
      · rw [List.intercalate_cons_of_ne_nil last, List.mem_append, List.mem_append] at inside
        rcases inside with (here | between) | rest
        · exact .inr ⟨piece, List.mem_cons_self, here⟩
        · exact .inl between
        · exact (ih rest).imp_right fun ⟨other, member, found⟩ =>
            ⟨other, List.mem_cons_of_mem _ member, found⟩

end AgentKit.Text
