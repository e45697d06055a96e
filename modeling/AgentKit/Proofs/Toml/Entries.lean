/-
# Entries of a TOML document

How the reader takes a document apart whose texts are written with their escapes: a text in
quotes, a text on several lines, a list with one text on a line, and the key before each of
them. Every statement is for an arbitrary continuation, so the entries of a document can be
read one after the other.
-/

import AgentKit.Proofs.Toml.Escaping

namespace AgentKit.Toml

open Document (escape escapeRuns)

variable {keepsReturn : Bool} {rest : List Char}

/-! ## Values -/

/-- A text between quotes, escaped. -/
def quote (cs : List Char) : List Char :=
  '"' :: escape cs ++ ['"']

theorem head?_escape_ne_quote (cs : List Char) : (escape cs).head? ≠ some '"' := by
  cases cs with
  | nil => simp [escape]
  | cons c cs =>
      rw [escape, List.flatMap_cons, List.head?_append]
      unfold Document.escapeChar
      split <;> simp_all

/-- A text between quotes is read if it is writable. A third quote must not follow, since three
quotes begin a string on several lines. -/
theorem readText_quote (cs : List Char) (ended : rest.head? ≠ some '"') :
    readText keepsReturn (quote cs ++ rest) =
      (if IsWritable cs then some cs else none).map (·, rest) := by
  have single : readText keepsReturn ('"' :: (escape cs ++ '"' :: rest)) =
      readString .oneLine .text (escape cs ++ '"' :: rest) := by
    have first := head?_escape_ne_quote cs
    cases escaped : escape cs with
    | nil =>
        unfold readText
        split <;> simp_all
    | cons c more =>
        rw [escaped] at first
        unfold readText
        split <;> simp_all
  have whole : quote cs ++ rest = '"' :: (escape cs ++ '"' :: rest) := by
    simp [quote]
  rw [whole, single, readString_escape]
  by_cases writable : IsWritable cs
  · rw [if_pos writable, if_pos writable, Option.map_some]
  · rw [if_neg writable, if_neg writable, Option.map_none]

/-- A text on several lines is read as what it means. -/
theorem readText_lines (cs : List Char) (ended : rest.head? ≠ some '"') :
    readText keepsReturn ('"' :: '"' :: '"' :: '\n' :: (escapeRuns cs ++
        '\n' :: '"' :: '"' :: '"' :: rest)) =
      ((Form.lines keepsReturn).meaningOf? (cs ++ ['\n'])).map (·, rest) := by
  rw [readText, afterFirstBreak, readString_escapeRuns keepsReturn cs ended]

/-! ## Lists -/

section Items

variable {cs start behind : List Char}

theorem readItems_of_closed (inside : skipGaps cs = ']' :: rest) :
    readItems keepsReturn cs = some ([], rest) := by
  rw [readItems]
  split <;> simp_all

/-- A text with a comma behind it is read before the other items, if it can be read. -/
theorem readItems_of_text {found : Option (List Char)} (inside : skipGaps cs = start)
    (filled : start.head? ≠ some ']') (read : readText keepsReturn start = found.map (·, behind))
    (next : skipGaps behind = ',' :: rest) :
    readItems keepsReturn cs = found.bind fun text =>
      (readItems keepsReturn rest).map fun (items, rest) => (String.ofList text :: items, rest) := by
  rw [readItems]
  split
  · next closed =>
      rw [← inside, closed] at filled
      exact absurd rfl filled
  · cases found with
    | none => split <;> simp_all
    | some text =>
        split <;> simp_all
        split <;> simp_all

end Items

/-- All of several texts are writable. -/
def AreWritable (items : List String) : Prop :=
  ∀ item ∈ items, IsWritable item.toList

instance : DecidablePred AreWritable :=
  fun items => inferInstanceAs (Decidable (∀ item ∈ items, IsWritable item.toList))

theorem areWritable_cons {item : String} {items : List String} :
    AreWritable (item :: items) ↔ IsWritable item.toList ∧ AreWritable items :=
  List.forall_mem_cons

/-- The lines of a list, each with a text and a comma. -/
def itemLines (items : List String) : List Char :=
  items.flatMap fun item => ' ' :: ' ' :: quote item.toList ++ [',', '\n']

/-- A list with a text on a line is read if all its texts are writable. -/
theorem readItems_itemLines (items : List String) (rest : List Char) :
    readItems keepsReturn ('\n' :: itemLines items ++ ']' :: rest) =
      (if AreWritable items then some items else none).map (·, rest) := by
  induction items with
  | nil =>
      rw [readItems_of_closed (show _ = ']' :: rest from rfl), if_pos (by simp [AreWritable])]
      rfl
  | cons item items ih =>
      have whole : '\n' :: itemLines (item :: items) ++ ']' :: rest =
          '\n' :: ' ' :: ' ' :: (quote item.toList ++
            ',' :: ('\n' :: itemLines items ++ ']' :: rest)) := by
        simp [itemLines]
      have inside : skipGaps ('\n' :: ' ' :: ' ' :: (quote item.toList ++
          ',' :: ('\n' :: itemLines items ++ ']' :: rest))) =
        quote item.toList ++ ',' :: ('\n' :: itemLines items ++ ']' :: rest) := rfl
      rw [whole, readItems_of_text inside (by simp [quote]) (readText_quote _ (by simp)) rfl, ih]
      by_cases first : IsWritable item.toList <;> by_cases others : AreWritable items <;>
        simp [areWritable_cons, first, others]

/-! ## Keys -/

/-- A text that can be written as a bare key. -/
def IsKey (key : String) : Prop :=
  key.toList ≠ [] ∧ ∀ c ∈ key.toList, isKeyChar c

instance : DecidablePred IsKey :=
  fun key => inferInstanceAs (Decidable (key.toList ≠ [] ∧ ∀ c ∈ key.toList, isKeyChar c))

variable {key : String}

/-- A key before the sign of equality. -/
theorem readEntry_key (proper : IsKey key) (rest : List Char) :
    readEntry keepsReturn (key.toList ++ ' ' :: '=' :: ' ' :: rest) =
      (readValue keepsReturn (skipBlanks rest)).map fun (value, rest) => ((key, value), rest) := by
  have before : (key.toList ++ ' ' :: '=' :: ' ' :: rest).takeWhile isKeyChar = key.toList := by
    rw [List.takeWhile_append_of_pos proper.2, List.takeWhile_cons_of_neg (by decide),
      List.append_nil]
  have after : skipBlanks ((key.toList ++ ' ' :: '=' :: ' ' :: rest).dropWhile isKeyChar) =
      '=' :: ' ' :: rest := by
    rw [List.dropWhile_append_of_pos proper.2, List.dropWhile_cons_of_neg (by decide)]
    rfl
  have blank : skipBlanks (' ' :: rest) = skipBlanks rest := rfl
  rw [readEntry]
  simp only [before, after, blank, List.isEmpty_iff, proper.1, if_false, String.ofList_toList]

/-- A key and a text. -/
theorem readEntry_text {start behind : List Char} {found : Option (List Char)} (proper : IsKey key)
    (quoted : start.head? = some '"') (read : readText keepsReturn start = found.map (·, behind)) :
    readEntry keepsReturn (key.toList ++ ' ' :: '=' :: ' ' :: start) =
      (found.map fun text => (key, Value.text (String.ofList text))).map (·, behind) := by
  obtain ⟨others, rfl⟩ := List.head?_eq_some_iff.mp quoted
  have solid : skipBlanks ('"' :: others) = '"' :: others := rfl
  have value : readValue keepsReturn ('"' :: others) =
      (found.map fun text => Value.text (String.ofList text)).map (·, behind) := by
    unfold readValue
    split
    · next list => cases list
    · rw [read]
      cases found <;> rfl
  rw [readEntry_key proper, solid, value]
  cases found <;> rfl

/-- A key and a list. -/
theorem readEntry_list {behind : List Char} {found : Option (List String)} (proper : IsKey key)
    (read : readItems keepsReturn rest = found.map (·, behind)) :
    readEntry keepsReturn (key.toList ++ ' ' :: '=' :: ' ' :: '[' :: rest) =
      (found.map fun items => (key, Value.list items)).map (·, behind) := by
  have solid : skipBlanks ('[' :: rest) = '[' :: rest := rfl
  rw [readEntry_key proper, solid, readValue, read]
  cases found <;> rfl

section Entries

variable {cs start behind : List Char}

theorem readEntries_of_ended (ended : skipGaps cs = []) : readEntries keepsReturn cs = some [] := by
  rw [readEntries]
  split <;> simp_all

/-- An entry on a line of its own is read before the other entries, if it can be read. -/
theorem readEntries_of_entry {found : Option (String × Value)} (inside : skipGaps cs = start)
    (filled : start ≠ []) (read : readEntry keepsReturn start = found.map (·, behind))
    (ended : lineEnd? behind = some rest) :
    readEntries keepsReturn cs =
      found.bind fun entry => (readEntries keepsReturn rest).map (entry :: ·) := by
  rw [readEntries]
  split
  · simp_all
  · cases found with
    | none => split <;> simp_all
    | some entry =>
        split <;> simp_all
        split <;> simp_all

end Entries

end AgentKit.Toml
