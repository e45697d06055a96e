/-
# Escaped texts

A text is escaped one character after the other. A character is escaped by a backslash and a
letter or stands for itself, and what stands for itself is never a backslash; so the first
characters of an escaped text say which character comes first, and the text can be taken
apart in one way only.

The escaped form of a text stands on one line, whatever the text is.
-/

import AgentKit.Document.Quoted

namespace AgentKit.Document

variable {c d : Char} {cs ds : List Char}

/-- The characters that are escaped, each with the letter behind the backslash. -/
def escapes : List (Char × Char) :=
  [('\\', '\\'), ('"', '"'), ('\n', 'n'), ('\r', 'r'), ('\t', 't')]

/-- A character is escaped by its letter, or it stands for itself. -/
theorem escapeChar_cases (c : Char) :
    (∃ letter, (c, letter) ∈ escapes ∧ escapeChar c = ['\\', letter]) ∨
      (∀ pair ∈ escapes, c ≠ pair.1) ∧ escapeChar c = [c] := by
  unfold escapeChar
  split
  case h_6 backslash quote feed carriage tab =>
    right
    exact ⟨by simpa [escapes] using ⟨backslash, quote, feed, carriage, tab⟩, rfl⟩
  all_goals
    left
    exact ⟨_, by decide, rfl⟩

/-- The letter of an escape says which character it stands for. -/
theorem eq_of_mem_escapes {letter : Char} (first : (c, letter) ∈ escapes)
    (second : (d, letter) ∈ escapes) : c = d := by
  have told : ∀ one ∈ escapes, ∀ other ∈ escapes, one.2 = other.2 → one.1 = other.1 := by decide
  exact told _ first _ second rfl

/-- Of two texts that begin with escaped characters the first characters are the same if the
texts are. -/
theorem escapeChar_append_inj {rest rest' : List Char}
    (same : escapeChar c ++ rest = escapeChar d ++ rest') : c = d ∧ rest = rest' := by
  rcases escapeChar_cases c with ⟨letter, escaped, form⟩ | ⟨plain, form⟩ <;>
    rcases escapeChar_cases d with ⟨letter', escaped', form'⟩ | ⟨plain', form'⟩ <;>
    rw [form, form'] at same
  · obtain ⟨-, rfl, rest⟩ : '\\' = '\\' ∧ letter = letter' ∧ rest = rest' := by simpa using same
    exact ⟨eq_of_mem_escapes escaped escaped', rest⟩
  · -- A backslash is always escaped.
    exact absurd (List.cons.inj same).1.symm (plain' ('\\', '\\') (by decide))
  · exact absurd (List.cons.inj same).1 (plain ('\\', '\\') (by decide))
  · simpa using same

theorem escape_cons (c : Char) (cs : List Char) : escape (c :: cs) = escapeChar c ++ escape cs :=
  List.flatMap_cons

theorem escapeChar_ne_nil (c : Char) : escapeChar c ≠ [] := by
  rcases escapeChar_cases c with ⟨letter, -, form⟩ | ⟨-, form⟩ <;> simp [form]

/-- Different texts are escaped to different texts. -/
theorem escape_injective : Function.Injective escape := by
  intro cs
  induction cs with
  | nil =>
      intro ds same
      cases ds with
      | nil => rfl
      | cons d ds =>
          rw [escape_cons] at same
          exact absurd (List.append_eq_nil_iff.mp same.symm).1 (escapeChar_ne_nil d)
  | cons c cs ih =>
      intro ds same
      cases ds with
      | nil =>
          rw [escape_cons] at same
          exact absurd (List.append_eq_nil_iff.mp same).1 (escapeChar_ne_nil c)
      | cons d ds =>
          rw [escape_cons, escape_cons] at same
          obtain ⟨first, rest⟩ := escapeChar_append_inj same
          rw [first, ih rest]

theorem escaped_injective : Function.Injective escaped := by
  intro s t same
  exact String.toList_injective (escape_injective (String.ofList_injective same))

/-- There is no line break and no tab in an escaped text. -/
theorem notMem_of_mem_escape (inside : c ∈ escape cs) : c ∉ ['\n', '\r', '\t'] := by
  obtain ⟨d, -, written⟩ := List.mem_flatMap.mp inside
  rcases escapeChar_cases d with ⟨letter, known, form⟩ | ⟨plain, form⟩ <;> rw [form] at written
  · have letters : ∀ pair ∈ escapes, '\\' ∉ ['\n', '\r', '\t'] ∧ pair.2 ∉ ['\n', '\r', '\t'] := by
      decide
    obtain ⟨backslash, other⟩ := letters _ known
    rcases List.mem_cons.mp written with rfl | last
    · exact backslash
    · rwa [List.mem_singleton.mp last]
  · obtain rfl := List.mem_singleton.mp written
    have escaped : ∀ e ∈ ['\n', '\r', '\t'], ∃ pair ∈ escapes, pair.1 = e := by decide
    intro control
    obtain ⟨pair, known, rfl⟩ := escaped c control
    exact plain pair known rfl

theorem toList_quoted (s : String) : (quoted s).toList = '"' :: (escape s.toList ++ ['"']) := by
  simp [quoted, escaped]

/-- Different texts are quoted to different texts. -/
theorem quoted_injective : Function.Injective quoted := by
  intro s t same
  have inner := congrArg String.toList same
  rw [toList_quoted, toList_quoted, List.cons_inj_right, List.append_cancel_right_eq] at inner
  exact String.toList_inj.mp (escape_injective inner)

end AgentKit.Document
