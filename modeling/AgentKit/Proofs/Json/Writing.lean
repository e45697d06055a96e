/-
# Written JSON is read back

Every value is read back from what is written for it, inside any number of lists and objects
and with anything behind it that does not go on with a count. So a document that is written is
the document of one value only, and no text is changed by being written: every character that
may not stand in a string by itself is escaped, and every escape is undone.
-/

import AgentKit.Proofs.Json.Reading
import AgentKit.Proofs.Number.Digits
import AgentKit.Proofs.Yaml.Scalar.Quoted

namespace AgentKit.Json

open Yaml (hexValue? charOfCode? charOfCode?_toNat)

variable {cs start rest : List Char} {depth limit : Nat}

/-! ## Strings -/

theorem hexValue?_hexDigit : ∀ n < 16, hexValue? (hexDigit n) = some n := by decide

/-- A control character is read back from its code unit. -/
theorem readChar_unit {c : Char} (control : c.toNat < 0x20) (rest : List Char) :
    readChar ('\\' :: 'u' :: '0' :: '0' :: hexDigit (c.toNat / 16) :: hexDigit (c.toNat % 16) ::
      rest) = some (c, rest) := by
  have high := hexValue?_hexDigit (c.toNat / 16) (by omega)
  have low := hexValue?_hexDigit (c.toNat % 16) (by omega)
  have zero : hexValue? '0' = some 0 := by decide
  have whole : ((0 * 16 + 0) * 16 + c.toNat / 16) * 16 + c.toNat % 16 = c.toNat := by omega
  simp only [readChar, readCode, readUnit, high, low, zero, whole, charOfCode?_toNat]

/-- A character is read back from its written form. -/
theorem readChar_escapeChar (c : Char) (rest : List Char) :
    readChar (escapeChar c ++ rest) = some (c, rest) := by
  unfold escapeChar
  split
  case h_8 not_quote not_backslash _ _ _ _ _ =>
    split
    · next control => exact readChar_unit control rest
    · next raw =>
      have plain : ¬ (c = '\\' ∨ c.toNat < 0x20) := not_or.mpr ⟨not_backslash, raw⟩
      rw [List.singleton_append, readChar]
      · rw [if_neg plain]
      · intro tail backslash
        exact absurd backslash not_backslash
      · intro letter tail backslash
        exact absurd backslash not_backslash
  all_goals rfl

/-- The written form of a character does not begin with a quote. -/
theorem head?_escapeChar_ne (c : Char) (rest : List Char) :
    (escapeChar c ++ rest).head? ≠ some '"' := by
  unfold escapeChar
  split
  case h_8 not_quote _ _ _ _ _ _ =>
    split
    · simp
    · simpa using not_quote
  all_goals simp

theorem readString_cons {c : Char} (read : readChar start = some (c, rest))
    (inside : start.head? ≠ some '"') :
    readString start = (readString rest).map fun (text, rest) => (c :: text, rest) := by
  rw [readString]
  · split
    · next failed => rw [read] at failed; contradiction
    · next found =>
      rw [read] at found
      cases found
      rfl
  · intro tail begins
    exact inside (by rw [begins]; rfl)

/-- A text is read back up to the quote behind it. -/
theorem readString_escaped (text rest : List Char) :
    readString (text.flatMap escapeChar ++ '"' :: rest) = some (text, rest) := by
  induction text with
  | nil => rw [List.flatMap_nil, List.nil_append, readString]
  | cons c text ih =>
      rw [List.flatMap_cons, List.append_assoc,
        readString_cons (readChar_escapeChar c _) (head?_escapeChar_ne c _), ih]
      rfl

/-! ## Counts -/

/-- What follows a count does not go on with digits. -/
def EndsCount (rest : List Char) : Prop :=
  ∀ c ∈ rest.head?, Number.isDigit c = false

theorem endsCount_cons {c : Char} (other : Number.isDigit c = false) (rest : List Char) :
    EndsCount (c :: rest) := by
  intro d begins
  rw [List.head?_cons, Option.mem_some_iff] at begins
  rw [← begins]
  exact other

theorem span_digits (digits : ∀ c ∈ cs, Number.isDigit c) (ends : EndsCount rest) :
    (cs ++ rest).takeWhile Number.isDigit = cs ∧ (cs ++ rest).dropWhile Number.isDigit = rest := by
  rw [List.takeWhile_append_of_pos digits, List.dropWhile_append_of_pos digits]
  cases rest with
  | nil => simp
  | cons c rest => simp [ends c rfl]

/-- A count is read back from its digits. -/
theorem readCount_toDigits (n : Nat) (ends : EndsCount rest) :
    readCount (Nat.toDigits 10 n ++ rest) = some (n, rest) := by
  have digits : ∀ c ∈ Nat.toDigits 10 n, Number.isDigit c :=
    fun c => Number.isDigit_of_mem_toDigits
  obtain ⟨taken, left⟩ := span_digits digits ends
  have some_digit : Nat.toDigits 10 n ≠ [] := Nat.toDigits_ne_nil
  have no_zeros : ¬ ((Nat.toDigits 10 n).head? = some '0' ∧ Nat.toDigits 10 n ≠ ['0']) := by
    rintro ⟨zero, more⟩
    rcases Nat.eq_zero_or_pos n with none | positive
    · rw [none] at more
      exact more rfl
    · exact Number.head?_toDigits positive zero
  simp only [readCount, taken, left]
  rw [if_neg (not_or.mpr ⟨some_digit, no_zeros⟩), Number.digitsValue_toDigits_self]

/-! ## White space -/

theorem skipSpace_cons {c : Char} (solid : isSpace c = false) (cs : List Char) :
    skipSpace (c :: cs) = c :: cs := by
  rw [skipSpace, List.dropWhile_cons_of_neg (by simpa using solid)]

theorem skipSpace_cons_space (cs : List Char) : skipSpace (' ' :: cs) = skipSpace cs :=
  List.dropWhile_cons_of_pos rfl

/-- The start of a line is white space. -/
theorem skipSpace_newLine (depth : Nat) (cs : List Char) :
    skipSpace (newLine depth ++ cs) = skipSpace cs := by
  have space : ∀ c ∈ newLine depth, isSpace c := by
    intro c member
    rcases List.mem_cons.mp member with feed | blank
    · rw [feed]
      rfl
    · rw [List.eq_of_mem_replicate blank]
      rfl
  rw [skipSpace, List.dropWhile_append_of_pos space, skipSpace]

/-! ## How values begin -/

/-- A digit is no white space, and begins neither a word nor a text, a list or an object. -/
theorem of_isDigit {c : Char} (digit : Number.isDigit c) :
    isSpace c = false ∧ c ∉ ['"', '[', ']', '\x7b', 'n', 't', 'f'] := by
  rw [Number.isDigit, Bool.and_eq_true, decide_eq_true_iff, decide_eq_true_iff] at digit
  constructor
  · rw [isSpace]
    simp only [Bool.or_eq_false_iff, beq_eq_false_iff_ne]
    refine ⟨⟨⟨?_, ?_⟩, ?_⟩, ?_⟩ <;> rintro rfl <;> exact absurd digit (by decide)
  · simp only [List.mem_cons, List.not_mem_nil, or_false]
    rintro (rfl | rfl | rfl | rfl | rfl | rfl | rfl) <;> exact absurd digit (by decide)

/-- A written value begins with neither white space nor the end of a list. -/
theorem begins_writeAt (depth : Nat) (value : Json) :
    ∃ c cs, writeAt depth value = c :: cs ∧ isSpace c = false ∧ c ≠ ']' := by
  cases value with
  | null => exact ⟨_, _, by rw [writeAt]; rfl, rfl, by decide⟩
  | bool value => cases value <;> exact ⟨_, _, by rw [writeAt]; rfl, rfl, by decide⟩
  | number n =>
      obtain ⟨c, cs, digits⟩ := List.exists_cons_of_ne_nil (@Nat.toDigits_ne_nil n 10)
      have digit := Number.isDigit_of_mem_toDigits (digits ▸ List.mem_cons_self : c ∈ _)
      obtain ⟨solid, other⟩ := of_isDigit digit
      refine ⟨c, cs, by rw [writeAt, digits], solid, ?_⟩
      rintro rfl
      exact other (by simp)
  | string text => exact ⟨_, _, by rw [writeAt, writeString], rfl, by decide⟩
  | array items => cases items <;> exact ⟨_, _, by rw [writeAt], rfl, by decide⟩
  | object members =>
      rcases members with _ | ⟨⟨key, value⟩, members⟩ <;>
        exact ⟨_, _, by rw [writeAt], rfl, by decide⟩

theorem skipSpace_writeAt (depth : Nat) (value : Json) (cs : List Char) :
    skipSpace (writeAt depth value ++ cs) = writeAt depth value ++ cs := by
  obtain ⟨c, begun, whole, solid, _⟩ := begins_writeAt depth value
  rw [whole, List.cons_append, skipSpace_cons solid]

theorem skipSpace_writeString (text : String) (cs : List Char) :
    skipSpace (writeString text ++ cs) = writeString text ++ cs :=
  skipSpace_cons rfl _

/-! ## Values -/

/-- The written items of a list, from the first one on. -/
def itemsText (depth : Nat) : List Json → List Char
  | [] => []
  | item :: items => writeAt depth item ++ writeItems depth items

/-- The written members of an object, from the first one on. -/
def membersText (depth : Nat) : List (String × Json) → List Char
  | [] => []
  | (key, value) :: members =>
    writeString key ++ ':' :: ' ' :: (writeAt depth value ++ writeMembers depth members)

theorem writeItems_cons (depth : Nat) (item : Json) (items : List Json) :
    writeItems depth (item :: items) =
      ',' :: (newLine depth ++ itemsText depth (item :: items)) := by
  rw [writeItems, itemsText, List.append_assoc]

theorem writeMembers_cons (depth : Nat) (member : String × Json)
    (members : List (String × Json)) :
    writeMembers depth (member :: members) =
      ',' :: (newLine depth ++ membersText depth (member :: members)) := by
  obtain ⟨key, value⟩ := member
  rw [writeMembers, membersText]
  simp

theorem writeAt_array (depth : Nat) (item : Json) (items : List Json) :
    writeAt depth (.array (item :: items)) =
      '[' :: (newLine (depth + 1) ++ (itemsText (depth + 1) (item :: items) ++
        (newLine depth ++ [']']))) := by
  rw [writeAt, itemsText]
  simp

theorem writeAt_object (depth : Nat) (member : String × Json) (members : List (String × Json)) :
    writeAt depth (.object (member :: members)) =
      '\x7b' :: (newLine (depth + 1) ++ (membersText (depth + 1) (member :: members) ++
        (newLine depth ++ ['\x7d']))) := by
  obtain ⟨key, value⟩ := member
  rw [writeAt, membersText]
  simp

theorem readKey_writeString (key : String) (rest : List Char) :
    readKey (writeString key ++ ':' :: rest) = some (key, rest) := by
  rw [writeString, List.cons_append, List.append_assoc, List.singleton_append, readKey]
  simp only [readString_escaped, skipSpace_cons (show isSpace ':' = false by rfl),
    String.ofList_toList]

/-- What follows an item or a member does not go on with a count. -/
theorem endsCount_newLine (depth : Nat) (rest : List Char) : EndsCount (newLine depth ++ rest) :=
  endsCount_cons rfl _

/-- A value that begins with none of the marks is a word or a count. -/
theorem readValue_atom {c : Char} (other : c ∉ ['"', '[', '\x7b']) (cs : List Char) :
    readValue (limit + 1) (c :: cs) = readAtom (c :: cs) := by
  simp only [List.mem_cons, List.not_mem_nil, or_false, not_or] at other
  obtain ⟨not_quote, not_bracket, not_brace⟩ := other
  rw [readValue]
  · intro tail same
    exact not_quote (List.cons.inj same).1
  · intro tail same
    exact not_bracket (List.cons.inj same).1
  · intro tail same
    exact not_brace (List.cons.inj same).1

theorem readValue_number (n : Nat) (ends : EndsCount rest) :
    readValue (limit + 1) (Nat.toDigits 10 n ++ rest) = some (.number n, rest) := by
  obtain ⟨c, cs, digits⟩ := List.exists_cons_of_ne_nil (@Nat.toDigits_ne_nil n 10)
  have digit := Number.isDigit_of_mem_toDigits (digits ▸ List.mem_cons_self : c ∈ _)
  have other := (of_isDigit digit).2
  simp only [List.mem_cons, List.not_mem_nil, or_false, not_or] at other
  obtain ⟨not_quote, not_bracket, _, not_brace, not_n, not_t, not_f⟩ := other
  have counted := readCount_toDigits n ends
  rw [digits, List.cons_append] at counted ⊢
  rw [readValue_atom (by simp [not_quote, not_bracket, not_brace]), readAtom, counted]
  · rfl
  · intro tail same
    exact not_n (List.cons.inj same).1
  · intro tail same
    exact not_t (List.cons.inj same).1
  · intro tail same
    exact not_f (List.cons.inj same).1

theorem readValue_string (text : String) (rest : List Char) :
    readValue (limit + 1) (writeString text ++ rest) = some (.string text, rest) := by
  rw [writeString, List.cons_append, List.append_assoc, List.singleton_append, readValue,
    readString_escaped]
  simp only [Option.map_some, String.ofList_toList]

/-- A list that does not end at once is read from its first item on. -/
theorem readValue_array (some_item : (skipSpace start).head? ≠ some ']') :
    readValue (limit + 1) ('[' :: start) =
      (readItems limit start).map fun (items, rest) => (.array items, rest) := by
  rw [readValue]
  split
  · next closed =>
    rw [closed] at some_item
    exact absurd rfl some_item
  · rfl

/-- An object that does not end at once is read from its first member on. -/
theorem readValue_object (some_member : (skipSpace start).head? ≠ some '\x7d') :
    readValue (limit + 1) ('\x7b' :: start) =
      (readMembers limit start).map fun (members, rest) => (.object members, rest) := by
  rw [readValue]
  split
  · next closed =>
    rw [closed] at some_member
    exact absurd rfl some_member
  · rfl

theorem head?_itemsText (depth : Nat) (item : Json) (items : List Json) (rest : List Char) :
    (itemsText depth (item :: items) ++ rest).head? ≠ some ']' := by
  obtain ⟨c, cs, whole, _, open_item⟩ := begins_writeAt depth item
  rw [itemsText, whole]
  simpa using open_item

theorem skipSpace_itemsText (depth : Nat) (item : Json) (items : List Json) (rest : List Char) :
    skipSpace (itemsText depth (item :: items) ++ rest) =
      itemsText depth (item :: items) ++ rest := by
  rw [itemsText, List.append_assoc, skipSpace_writeAt]

theorem skipSpace_membersText (depth : Nat) (member : String × Json)
    (members : List (String × Json)) (rest : List Char) :
    skipSpace (membersText depth (member :: members) ++ rest) =
      membersText depth (member :: members) ++ rest :=
  skipSpace_cons rfl _

theorem length_writeAt_pos (depth : Nat) (value : Json) : 0 < (writeAt depth value).length := by
  obtain ⟨c, cs, whole, _⟩ := begins_writeAt depth value
  rw [whole]
  exact Nat.succ_pos _

-- The induction is on the limit, which falls by one with every value that is opened and every
-- item or member that is passed. What is written of a value is compared with it, and what is
-- written inside the value is shorter by the marks around it.
mutual

/-- A value is read back from what is written for it. -/
theorem readValue_writeAt (depth : Nat) :
    ∀ (limit : Nat) (value : Json) (rest : List Char), EndsCount rest →
      (writeAt depth value).length ≤ limit →
      readValue limit (writeAt depth value ++ rest) = some (value, rest)
  | 0, value, _, _, enough => absurd (length_writeAt_pos depth value) (Nat.not_lt.mpr enough)
  | limit + 1, .null, rest, _, _ => by
      rw [writeAt]
      rfl
  | limit + 1, .bool true, rest, _, _ => by
      rw [writeAt]
      rfl
  | limit + 1, .bool false, rest, _, _ => by
      rw [writeAt]
      rfl
  | limit + 1, .number n, rest, ends, _ => by
      rw [writeAt]
      exact readValue_number n ends
  | limit + 1, .string text, rest, _, _ => by
      rw [writeAt]
      exact readValue_string text rest
  | limit + 1, .array [], rest, _, _ => by
      rw [writeAt]
      rfl
  | limit + 1, .array (item :: items), rest, _, enough => by
      rw [writeAt_array] at enough ⊢
      simp only [List.length_cons, List.length_append] at enough
      have inside := readItems_itemsText (depth + 1) depth limit (item :: items) rest
        (List.cons_ne_nil _ _) (by omega)
      simp only [List.cons_append, List.append_assoc, List.nil_append]
      rw [readValue_array, inside, Option.map_some]
      rw [skipSpace_newLine, skipSpace_itemsText]
      exact head?_itemsText _ _ _ _
  | limit + 1, .object [], rest, _, _ => by
      rw [writeAt]
      rfl
  | limit + 1, .object (member :: members), rest, _, enough => by
      rw [writeAt_object] at enough ⊢
      simp only [List.length_cons, List.length_append] at enough
      have inside := readMembers_membersText (depth + 1) depth limit (member :: members) rest
        (List.cons_ne_nil _ _) (by omega)
      simp only [List.cons_append, List.append_assoc, List.nil_append]
      rw [readValue_object, inside, Option.map_some]
      rw [skipSpace_newLine, skipSpace_membersText]
      simp [membersText, writeString]

/-- The items of a list are read back up to its end. -/
theorem readItems_itemsText (depth outer : Nat) :
    ∀ (limit : Nat) (items : List Json) (rest : List Char), items ≠ [] →
      (itemsText depth items).length < limit →
      readItems limit (newLine depth ++ (itemsText depth items ++ (newLine outer ++ ']' :: rest))) =
        some (items, rest)
  | 0, _, _, _, enough => absurd enough (Nat.not_lt_zero _)
  | _, [], _, some_item, _ => absurd rfl some_item
  | limit + 1, [item], rest, _, enough => by
      rw [itemsText, writeItems, List.append_nil] at enough ⊢
      have first := readValue_writeAt depth limit item (newLine outer ++ ']' :: rest)
        (endsCount_newLine _ _) (by omega)
      rw [readItems, skipSpace_newLine, skipSpace_writeAt, first]
      simp only [skipSpace_newLine, skipSpace_cons (show isSpace ']' = false by rfl)]
  | limit + 1, item :: next :: items, rest, _, enough => by
      rw [itemsText, writeItems_cons] at enough ⊢
      simp only [List.length_cons, List.length_append] at enough
      simp only [List.cons_append, List.append_assoc]
      have first := readValue_writeAt depth limit item
        (',' :: (newLine depth ++ (itemsText depth (next :: items) ++
          (newLine outer ++ ']' :: rest)))) (endsCount_cons rfl _) (by omega)
      have others := readItems_itemsText depth outer limit (next :: items) rest
        (List.cons_ne_nil _ _) (by omega)
      rw [readItems, skipSpace_newLine, skipSpace_writeAt, first]
      simp only [skipSpace_cons (show isSpace ',' = false by rfl), others, Option.map_some]

/-- The members of an object are read back up to its end. -/
theorem readMembers_membersText (depth outer : Nat) :
    ∀ (limit : Nat) (members : List (String × Json)) (rest : List Char), members ≠ [] →
      (membersText depth members).length < limit →
      readMembers limit
          (newLine depth ++ (membersText depth members ++ (newLine outer ++ '\x7d' :: rest))) =
        some (members, rest)
  | 0, _, _, _, enough => absurd enough (Nat.not_lt_zero _)
  | _, [], _, some_member, _ => absurd rfl some_member
  | limit + 1, [(key, value)], rest, _, enough => by
      rw [membersText, writeMembers, List.append_nil] at enough ⊢
      simp only [List.length_cons, List.length_append] at enough
      have first := readValue_writeAt depth limit value (newLine outer ++ '\x7d' :: rest)
        (endsCount_newLine _ _) (by omega)
      rw [readMembers, skipSpace_newLine]
      simp only [List.append_assoc, List.cons_append]
      rw [skipSpace_writeString, readKey_writeString]
      simp only [skipSpace_cons_space, skipSpace_writeAt, first, skipSpace_newLine,
        skipSpace_cons (show isSpace '\x7d' = false by rfl)]
  | limit + 1, (key, value) :: next :: members, rest, _, enough => by
      rw [membersText, writeMembers_cons] at enough ⊢
      simp only [List.length_cons, List.length_append] at enough
      simp only [List.cons_append, List.append_assoc]
      have first := readValue_writeAt depth limit value
        (',' :: (newLine depth ++ (membersText depth (next :: members) ++
          (newLine outer ++ '\x7d' :: rest)))) (endsCount_cons rfl _) (by omega)
      have others := readMembers_membersText depth outer limit (next :: members) rest
        (List.cons_ne_nil _ _) (by omega)
      rw [readMembers, skipSpace_newLine, skipSpace_writeString, readKey_writeString]
      simp only [skipSpace_cons_space, skipSpace_writeAt, first,
        skipSpace_cons (show isSpace ',' = false by rfl), others, Option.map_some]

end

/-- A document that is written is read back as the value it was written for, with any white
space behind it. -/
theorem read_write_append (value : Json) (space : String)
    (blank : ∀ c ∈ space.toList, isSpace c) :
    read (value.write ++ space) = some value := by
  have whole : (value.write ++ space).toList = writeAt 0 value ++ space.toList := by
    rw [String.toList_append, write, String.toList_ofList]
  have ends : EndsCount space.toList := by
    intro c begins
    by_contra digit
    rw [Bool.not_eq_false] at digit
    have solid := (of_isDigit digit).1
    rw [blank c (List.mem_of_mem_head? begins)] at solid
    contradiction
  have enough : (writeAt 0 value).length ≤ (value.write ++ space).length := by
    rw [← String.length_toList, whole, List.length_append]
    exact Nat.le_add_right _ _
  have all_blank : skipSpace space.toList = [] :=
    List.dropWhile_eq_nil_iff.mpr blank
  rw [read, whole, skipSpace_writeAt, readValue_writeAt 0 _ value _ ends enough]
  simp only [all_blank, if_true]

/-- A document that is written is read back as the value it was written for. -/
theorem read_write (value : Json) : read value.write = some value := by
  have unpadded := read_write_append value "" (by simp)
  rw [String.append_empty] at unpadded
  exact unpadded

/-- A written object ends in its brace. -/
theorem exists_write_object (members : List (String × Json)) :
    ∃ body : String, (Json.object members).write = body ++ "\x7d" := by
  have brace (cs : List Char) : String.ofList (cs ++ ['\x7d']) = String.ofList cs ++ "\x7d" :=
    String.ofList_append
  rw [write]
  rcases members with _ | ⟨member, members⟩
  · exact ⟨"\x7b", by rw [writeAt]; rfl⟩
  · rw [writeAt_object]
    refine ⟨String.ofList ('\x7b' :: (newLine 1 ++ (membersText 1 (member :: members) ++
      newLine 0))), ?_⟩
    rw [← brace]
    simp

end AgentKit.Json
