/-
# Line endings

The lines of a text know nothing of how they ended. Joined again with line feeds they give the
text with a line feed for each carriage return and line feed, if it does not end in a line
feed: then every line ending stands between two lines.

Beside the lines stand the pieces between the line feeds. They differ in carriage returns at
their ends and in an empty piece behind the last line feed, which nobody sees who trims the
lines and leaves the empty ones out.
-/

import AgentKit.Proofs.Text.Replacing
import AgentKit.Proofs.Text.Split
import AgentKit.Proofs.Text.Trimming

namespace AgentKit.Text

/-! ## Joined lines -/

/-- A text with a line feed for each carriage return and line feed. -/
def unifyLineEndings (cs : List Char) : List Char :=
  replaceAll ['\r', '\n'] ['\n'] cs

theorem unifyLineEndings_cons {c : Char} {cs : List Char}
    (other : ∀ rest, c = '\r' → cs ≠ '\n' :: rest) :
    unifyLineEndings (c :: cs) = c :: unifyLineEndings cs := by
  apply replaceAll_of_not_isPrefix
  rintro ⟨rest, whole⟩
  obtain ⟨rfl, behind⟩ := List.cons.inj whole
  exact other rest rfl behind.symm

theorem unifyLineEndings_ending (cs : List Char) :
    unifyLineEndings ('\r' :: '\n' :: cs) = '\n' :: unifyLineEndings cs :=
  replaceAll_append (by simp) ['\n'] cs

/-- A text ends in the same character as before. -/
theorem getLast?_unifyLineEndings (cs : List Char) :
    (unifyLineEndings cs).getLast? = cs.getLast? := by
  fun_induction lines cs with
  | case1 => rfl
  | case2 cs ih =>
      rw [unifyLineEndings_cons (by simp), List.getLast?_cons, List.getLast?_cons, ih]
  | case3 cs ih =>
      rw [unifyLineEndings_ending, List.getLast?_cons_cons, List.getLast?_cons,
        List.getLast?_cons, ih]
  | case4 c cs _ behind _ ih | case5 c cs _ behind _ _ _ ih =>
      rw [unifyLineEndings_cons behind, List.getLast?_cons, List.getLast?_cons, ih]

theorem lines_eq_nil_iff {cs : List Char} : lines cs = [] ↔ cs = [] := by
  fun_cases lines cs <;> simp_all

/-- The lines of a text, joined with line feeds. -/
theorem intercalate_lines {cs : List Char} (ends : ∀ c ∈ cs.getLast?, c ≠ '\n') :
    ['\n'].intercalate (lines cs) = unifyLineEndings cs := by
  -- The cases are those of `lines`. A line ending is never the last thing, so a line follows it.
  fun_induction lines cs with
  | case1 => rfl
  | case2 cs ih =>
      have more : cs ≠ [] := by
        rintro rfl
        exact ends '\n' rfl rfl
      rw [List.getLast?_cons_of_ne_nil more] at ends
      rw [List.intercalate_cons_of_ne_nil (mt lines_eq_nil_iff.mp more), ih ends,
        unifyLineEndings_cons (by simp)]
      rfl
  | case3 cs ih =>
      have more : cs ≠ [] := by
        rintro rfl
        exact ends '\n' rfl rfl
      rw [List.getLast?_cons_cons, List.getLast?_cons_of_ne_nil more] at ends
      rw [List.intercalate_cons_of_ne_nil (mt lines_eq_nil_iff.mp more), ih ends,
        unifyLineEndings_ending]
      rfl
  | case4 c cs _ _ ended ih =>
      have last : unifyLineEndings [c] = [c] := unifyLineEndings_cons (by simp)
      rw [lines_eq_nil_iff.mp ended, List.intercalate_singleton, last]
  | case5 c cs other behind line rest found ih =>
      have more : cs ≠ [] := by
        rintro rfl
        simp [lines] at found
      rw [List.getLast?_cons_of_ne_nil more] at ends
      rw [List.intercalate_cons_cons_left, ← found, ih ends, unifyLineEndings_cons behind]

/-! ## Lines beside pieces -/

/-- What trimming leaves of pieces of a text, without the pieces of which nothing is left. -/
def trimmedPieces (pieces : List (List Char)) : List (List Char) :=
  (pieces.map trim).filter (!·.isEmpty)

theorem trimmedPieces_append (first second : List (List Char)) :
    trimmedPieces (first ++ second) = trimmedPieces first ++ trimmedPieces second := by
  rw [trimmedPieces, List.map_append, List.filter_append]
  rfl

theorem mem_trimmedPieces {pieces : List (List Char)} {left : List Char}
    (member : left ∈ trimmedPieces pieces) : left ≠ [] ∧ ∃ piece ∈ pieces, trim piece = left := by
  rw [trimmedPieces, List.mem_filter, List.mem_map] at member
  exact ⟨by simpa using member.2, member.1⟩

theorem trimmedPieces_eq_self {pieces : List (List Char)}
    (trimmed : ∀ piece ∈ pieces, piece ≠ [] ∧ IsTrimmed piece) : trimmedPieces pieces = pieces := by
  have kept : pieces.map trim = pieces.map id :=
    List.map_congr_left fun piece member => trim_eq_self (trimmed piece member).2
  rw [trimmedPieces, kept, List.map_id, List.filter_eq_self]
  intro piece member
  simpa using (trimmed piece member).1

/-- The lines of a text beside the pieces between its line feeds. A piece may have a carriage
return at its end that its line has not, and there is an empty piece, but no line, after a
line feed at the end of the text. -/
inductive Beside : List (List Char) → List (List Char) → Prop where
  | ended : Beside [] [[]]
  | first {line piece : List Char} {lines pieces : List (List Char)}
      (ends : piece = line ∨ piece = line ++ ['\r'])
      (rest : trimmedPieces lines = trimmedPieces pieces) : Beside (line :: lines) (piece :: pieces)

theorem Beside.trimmedPieces_eq {lines pieces : List (List Char)} (beside : Beside lines pieces) :
    trimmedPieces lines = trimmedPieces pieces := by
  cases beside with
  | ended => decide
  | @first line piece lines pieces ends rest =>
      have same : trim piece = trim line := by
        cases ends with
        | inl equal => rw [equal]
        | inr longer =>
            rw [longer]
            exact trim_append_blank (by decide) line
      have begins : trimmedPieces [line] = trimmedPieces [piece] := by
        simp only [trimmedPieces, List.map_singleton, same]
      have both : trimmedPieces ([line] ++ lines) = trimmedPieces ([piece] ++ pieces) := by
        rw [trimmedPieces_append, trimmedPieces_append, begins, rest]
      exact both

theorem beside_lines (cs : List Char) : Beside (lines cs) (splitAt '\n' cs) := by
  -- The cases are those of `lines`: two line endings, and a character of the first line.
  fun_induction lines cs with
  | case1 => exact .ended
  | case2 cs ih =>
      rw [show splitAt '\n' ('\n' :: cs) = [] :: splitAt '\n' cs from
        splitWhere_cons_of_pos (by decide) cs]
      exact .first (.inl rfl) ih.trimmedPieces_eq
  | case3 cs ih =>
      rw [show splitAt '\n' ('\r' :: '\n' :: cs) = ['\r'] :: splitAt '\n' cs from
        splitWhere_cons_of_neg (by decide) (splitWhere_cons_of_pos (by decide) cs)]
      exact .first (.inr rfl) ih.trimmedPieces_eq
  | case4 c cs other _ ended ih =>
      have pieces : splitAt '\n' cs = [[]] := by
        rw [ended] at ih
        generalize splitAt '\n' cs = pieces at ih
        cases ih
        rfl
      rw [show splitAt '\n' (c :: cs) = [[c]] from
        splitWhere_cons_of_neg (by simpa using other) pieces]
      exact .first (.inl rfl) rfl
  | case5 c cs other _ line rest found ih =>
      rw [found] at ih
      cases whole : splitAt '\n' cs with
      | nil => exact absurd whole (splitWhere_ne_nil _ _)
      | cons piece pieces =>
          rw [whole] at ih
          rw [show splitAt '\n' (c :: cs) = (c :: piece) :: pieces from
            splitWhere_cons_of_neg (by simpa using other) whole]
          cases ih with
          | first ends same =>
              apply Beside.first _ same
              cases ends with
              | inl equal => exact .inl (by rw [equal])
              | inr longer => exact .inr (by rw [longer, List.cons_append])

end AgentKit.Text
