/-
# Entries with texts and lists

A document whose entries are texts and lists of texts is read entry by entry. Behind every
entry, and behind every item of a list, the reader of tokens is at the start of a line in the
same state. The hyphens of a list stand below its key, so the list opens no block of its own.
The document is the mapping of the keys to what the entries hold, each text in the style in
which it was written.
-/

import AgentKit.Proofs.Yaml.Mapping
import AgentKit.Proofs.Yaml.Scalar.Reading

namespace AgentKit.Yaml

/-- A text that is written as a scalar up to the end of its line. -/
structure ScalarLine extends Leaf where
  written : List Char
  isScalarLine : IsScalarLine written style text

/-- The line of an item of a list. -/
def ScalarLine.item (line : ScalarLine) : List Char :=
  '-' :: ' ' :: line.written

/-- What an entry holds: a text, or a list of texts. -/
inductive Part where
  | scalar (line : ScalarLine)
  | list (items : List ScalarLine)

namespace Part

/-- What is written behind the colon. -/
def written : Part → List Char
  | .scalar line => ' ' :: line.written
  | .list [] => [' ', '[', ']', '\n']
  | .list items => '\n' :: items.flatMap ScalarLine.item

/-- What the entry holds, without the way it is written. -/
def held : Part → Held
  | .scalar line => .scalar line.toLeaf
  | .list items => .list (items.map ScalarLine.toLeaf)

end Part

/-- An entry of a document. -/
structure Entry where
  key : List Char
  part : Part
  isKey : IsKey key

namespace Entry

/-- The lines of an entry. -/
def lines (entry : Entry) : List Char :=
  entry.key ++ ':' :: entry.part.written

/-- An entry as a pair. -/
def toPair (entry : Entry) : Pair :=
  ⟨entry.key, entry.part.held⟩

end Entry

variable {c : Char} {cs rest : List Char} {mark : Mark}

/-! ## Lines -/

theorem endsLine_append (before : List Char) (ends : cs.getLast?.any isBreak) :
    (before ++ cs).getLast?.any isBreak := by
  rw [List.getLast?_append]
  cases last : cs.getLast? <;> simp_all

theorem ScalarLine.endsLine_item (line : ScalarLine) : line.item.getLast?.any isBreak :=
  endsLine_append ['-', ' '] line.isScalarLine.ends

theorem Part.endsLine_written (part : Part) : part.written.getLast?.any isBreak := by
  match part with
  | .scalar line => exact endsLine_append [' '] line.isScalarLine.ends
  | .list [] => rfl
  | .list (item :: items) =>
      rcases List.eq_nil_or_concat (item :: items) with none | ⟨before, last, shape⟩
      · contradiction
      · rw [Part.written, shape]
        · rw [List.concat_eq_append, List.flatMap_append, ← List.cons_append]
          exact endsLine_append _ (by simpa using last.endsLine_item)
        · simp

theorem Entry.endsLine_lines (entry : Entry) : entry.lines.getLast?.any isBreak :=
  endsLine_append entry.key (endsLine_append [':'] entry.part.endsLine_written)

/-- What can follow an entry: nothing, or the key of another one. -/
def StartsKey (rest : List Char) : Prop :=
  ∀ c ∈ rest.head?, c.isAlpha

theorem StartsKey.startsLine (starts : StartsKey rest) : StartsLine rest :=
  fun c begins => .inl (starts c begins)

theorem startsKey_flatMap (entries : List Entry) : StartsKey (entries.flatMap Entry.lines) := by
  cases entries with
  | nil => exact fun c begins => by simp at begins
  | cons entry entries =>
      obtain ⟨c, others, shape, letter⟩ := entry.isKey.exists_cons
      intro d begins
      simp only [List.flatMap_cons, Entry.lines, shape, List.cons_append, List.head?_cons,
        Option.mem_some_iff] at begins
      exact begins ▸ letter

theorem startsLine_items (items : List ScalarLine) (starts : StartsLine rest) :
    StartsLine (items.flatMap ScalarLine.item ++ rest) := by
  cases items with
  | nil => exact starts
  | cons item items =>
      intro c begins
      exact .inr (Option.some.inj begins).symm

namespace TokenReader

variable {produced : List Token} {keyAllowed opened : Bool} {reader : TokenReader}

/-! ## Lists -/

/-- A hyphen below a key opens no block. -/
theorem fetchAt_hyphen (start : mark.column = 0) :
    (inBlock true produced ⟨mark, '-' :: ' ' :: rest⟩).fetchAt '-' (' ' :: rest) =
      .ok (inBlock true (.blockEntry :: produced) ⟨mark.next '-', ' ' :: rest⟩) := by
  have fetched : (inBlock true produced ⟨mark, '-' :: ' ' :: rest⟩).fetchAt '-' (' ' :: rest) =
      (inBlock true produced ⟨mark, '-' :: ' ' :: rest⟩).fetchBlockEntry := by
    simp [fetchAt, atDocumentMark, atGap, isSolid, isBlank]
  rw [fetched]
  simp [fetchBlockEntry, inBlock, onLine, inFlow, openBlock, opensBlock, column, start, dropKey,
    emit, Cursor.skip, bind, Except.bind]

/-- An item of a list is read in two steps. -/
theorem readAll_item (item : ScalarLine) (starts : StartsLine rest) (start : mark.column = 0)
    (advances : reader.advance = .ok (inBlock true produced ⟨mark, item.item ++ rest⟩)) :
    ∃ next : TokenReader,
      next.advance = .ok (inBlock true (item.token :: .blockEntry :: produced)
        ⟨mark.over item.item, rest⟩) ∧
      ∀ fuel, reader.readAll (fuel + 2) = next.readAll fuel := by
  obtain ⟨next, advances', reads⟩ := item.isScalarLine.reads true (.blockEntry :: produced)
    (mark.next '-') rest starts
  exact ⟨next, advances', fun fuel =>
    (readAll_succ advances rfl (fetchAt_hyphen start) (fuel + 1)).trans (reads fuel)⟩

/-- The items of a list are read one after the other. -/
theorem readAll_items (items : List ScalarLine) (starts : StartsLine rest)
    (start : mark.column = 0)
    (advances : reader.advance =
      .ok (inBlock true produced ⟨mark, items.flatMap ScalarLine.item ++ rest⟩)) :
    ∃ next : TokenReader,
      next.advance = .ok (inBlock true
        (((items.map ScalarLine.toLeaf).flatMap Leaf.itemTokens).reverse ++ produced)
        ⟨mark.over (items.flatMap ScalarLine.item), rest⟩) ∧
      ∀ fuel, reader.readAll (fuel + 2 * items.length) = next.readAll fuel := by
  induction items generalizing reader produced mark with
  | nil => exact ⟨reader, advances, fun fuel => rfl⟩
  | cons item items ih =>
      rw [List.flatMap_cons, List.append_assoc] at advances
      obtain ⟨middle, advances', reads⟩ :=
        readAll_item item (startsLine_items items starts) start advances
      obtain ⟨next, advances'', reads'⟩ :=
        ih (Mark.over_of_endsLine item.endsLine_item mark).2 advances'
      refine ⟨next, ?_, fun fuel => ?_⟩
      · rw [advances'', List.map_cons, List.flatMap_cons, List.flatMap_cons, Mark.over_append]
        simp [Leaf.itemTokens]
      · rw [List.length_cons, Nat.mul_add, ← reads' fuel, ← reads (fuel + 2 * items.length)]
        rfl

theorem length_le_items (items : List ScalarLine) :
    2 * items.length ≤ (items.flatMap ScalarLine.item).length := by
  induction items with
  | nil => exact Nat.le_refl _
  | cons item items ih =>
      rw [List.flatMap_cons, List.length_append, ScalarLine.item, List.length_cons,
        List.length_cons, List.length_cons]
      omega

/-- Between the brackets of an empty list a flow collection is open. -/
theorem readAll_brackets (fuel : Nat) :
    (inBlock false produced ⟨mark, ' ' :: '[' :: ']' :: rest⟩).readAll (fuel + 2) =
      (inBlock false (.flowSequenceEnd :: .flowSequenceStart :: produced)
        ⟨mark.over [' ', '[', ']'], rest⟩).readAll fuel := by
  have later : (mark.next ' ').column ≠ 0 := Nat.succ_ne_zero _
  have later' : ((mark.next ' ').next '[').column ≠ 0 := Nat.succ_ne_zero _
  have opens : (inBlock false produced ⟨mark.next ' ', '[' :: ']' :: rest⟩).fetchAt '['
      (']' :: rest) = .ok (onLine [none, none] true (.flowSequenceStart :: produced)
        ⟨(mark.next ' ').next '[', ']' :: rest⟩) := by
    simp [fetchAt, later, column, inBlock, onLine, fetchFlowStart, saveKey, emit, Cursor.skip, bind,
      Except.bind]
  have stays : (onLine [none, none] true (.flowSequenceStart :: produced)
      ⟨(mark.next ' ').next '[', ']' :: rest⟩).advance = .ok (onLine [none, none] true
        (.flowSequenceStart :: produced) ⟨(mark.next ' ').next '[', ']' :: rest⟩) :=
    advance_eq (passGap_solid (by decide) (by decide) fun _ => by decide) rfl
      (Int.natCast_nonneg _)
  have closes : (onLine [none, none] true (.flowSequenceStart :: produced)
      ⟨(mark.next ' ').next '[', ']' :: rest⟩).fetchAt ']' rest =
        .ok (inBlock false (.flowSequenceEnd :: .flowSequenceStart :: produced)
          ⟨mark.over [' ', '[', ']'], rest⟩) := by
    simp [fetchAt, later', column, inBlock, onLine, fetchFlowEnd, dropKey, inFlow, emit,
      Cursor.skip, bind, Except.bind, Mark.over]
  exact (readAll_succ (advance_scalar (by decide) (by decide)) rfl opens (fuel + 1)).trans
    (readAll_succ stays rfl closes fuel)

/-! ## Entries -/

/-- What an entry holds is read in at most as many steps as it has characters. -/
theorem readAll_part (part : Part) (starts : StartsLine rest) :
    ∃ steps, ∃ next : TokenReader, steps ≤ part.written.length ∧
      next.advance = .ok (inBlock true (part.held.tokens.reverse ++ produced)
        ⟨mark.over part.written, rest⟩) ∧
      ∀ fuel, (inBlock false produced ⟨mark, part.written ++ rest⟩).readAll (fuel + steps) =
        next.readAll fuel := by
  match part with
  | .scalar line =>
      obtain ⟨next, advances, reads⟩ := line.isScalarLine.reads false produced mark rest starts
      exact ⟨1, next, Nat.succ_le_succ (Nat.zero_le _), advances, reads⟩
  | .list [] =>
      refine ⟨2, _, by decide, advance_onLine rfl rfl (passGap_lineFeed starts), readAll_brackets⟩
  | .list (item :: items) =>
      have advances : (inBlock false produced
          ⟨mark, '\n' :: ((item :: items).flatMap ScalarLine.item ++ rest)⟩).advance =
            .ok (inBlock true produced
              ⟨mark.next '\n', (item :: items).flatMap ScalarLine.item ++ rest⟩) :=
        advance_onLine rfl rfl (passGap_lineFeed (startsLine_items (item :: items) starts))
      obtain ⟨next, advances', reads⟩ := readAll_items (item :: items) starts rfl advances
      exact ⟨_, next, Nat.le_succ_of_le (length_le_items (item :: items)), advances', reads⟩

/-- An entry is read in at most as many steps as it has characters. -/
theorem readAll_entry (entry : Entry) (starts : StartsLine rest) (start : mark.column = 0)
    (advances : reader.advance = .ok (atKey opened produced ⟨mark, entry.lines ++ rest⟩)) :
    ∃ steps, ∃ next : TokenReader, steps ≤ entry.lines.length ∧
      next.advance = .ok (atKey true (entry.toPair.tokens.reverse ++ (opening opened ++ produced))
        ⟨mark.over entry.lines, rest⟩) ∧
      ∀ fuel, reader.readAll (fuel + steps) = next.readAll fuel := by
  have shape : entry.lines ++ rest = entry.key ++ ':' :: (entry.part.written ++ rest) := by
    simp [Entry.lines]
  have gapped : atGap (entry.part.written ++ rest) := by
    match entry.part with
    | .scalar line => rfl
    | .list [] => rfl
    | .list (item :: items) => rfl
  obtain ⟨steps, next, few, advances', reads⟩ := @readAll_part _
    (mark.over (entry.key ++ [':']))
    (.value :: .scalar .plain entry.key :: .key :: (opening opened ++ produced)) entry.part starts
  refine ⟨steps + 2, next, ?_, ?_, fun fuel => ?_⟩
  · rw [Entry.lines, List.length_append, List.length_cons]
    have filled := List.length_pos_iff.mpr entry.isKey.plain.filled
    omega
  · have marks : mark.over entry.lines =
        (mark.over (entry.key ++ [':'])).over entry.part.written := by
      rw [← Mark.over_append]
      simp [Entry.lines]
    have tokens : entry.toPair.tokens.reverse ++ (opening opened ++ produced) =
        entry.part.held.tokens.reverse ++
        (.value :: .scalar .plain entry.key :: .key :: (opening opened ++ produced)) := by
      simp [Entry.toPair, Pair.tokens]
    rw [marks, tokens]
    exact advances'
  · rw [shape] at advances
    rw [← Nat.add_assoc, readAll_key entry.isKey gapped start advances]
    exact reads fuel

/-- Entries are read one after the other. -/
theorem readAll_entries (entries : List Entry) (start : mark.column = 0)
    (advances : reader.advance =
      .ok (atKey true produced ⟨mark, entries.flatMap Entry.lines⟩)) {fuel : Nat}
    (enough : (entries.flatMap Entry.lines).length < fuel) :
    reader.readAll fuel =
      .ok (produced.reverse ++ ((entries.map Entry.toPair).flatMap Pair.tokens ++ [.blockEnd])) := by
  induction entries generalizing reader produced mark fuel with
  | nil =>
      rw [readAll_finish (Nat.zero_lt_of_lt enough) advances rfl]
      simp [atKey, finish, dedentTo, inFlow, closeBlocks, dropKey, bind, Except.bind]
  | cons entry entries ih =>
      rw [List.flatMap_cons] at advances enough
      obtain ⟨steps, next, few, advances', reads⟩ :=
        readAll_entry entry (startsKey_flatMap entries).startsLine start advances
      rw [List.length_append] at enough
      obtain ⟨fuel, rfl⟩ : ∃ more, fuel = more + steps := ⟨fuel - steps, by omega⟩
      rw [reads, ih (Mark.over_of_endsLine entry.endsLine_lines mark).2 advances' (by omega)]
      simp [opening]

end TokenReader

/-! ## Documents -/

/-- The tokens of a document with entries. -/
theorem tokensOf_entries (entry : Entry) (entries : List Entry) :
    tokensOf ((entry :: entries).flatMap Entry.lines) =
      .ok (.blockMappingStart ::
        (((entry :: entries).map Entry.toPair).flatMap Pair.tokens ++ [.blockEnd])) := by
  obtain ⟨c, others, shape, letter⟩ := entry.isKey.exists_cons
  have begins : (entry :: entries).flatMap Entry.lines =
      c :: (others ++ ':' :: entry.part.written ++ entries.flatMap Entry.lines) := by
    simp [Entry.lines, shape]
  have advances : (TokenReader.ofText ((entry :: entries).flatMap Entry.lines)).advance =
      .ok (.atKey false [] ⟨.start, (entry :: entries).flatMap Entry.lines⟩) := by
    have stays (rest : List Char) : (TokenReader.atKey false [] ⟨.start, c :: rest⟩).advance =
        .ok (.atKey false [] ⟨.start, c :: rest⟩) := TokenReader.advance_atKey rfl letter
    rw [begins]
    exact stays _
  rw [List.flatMap_cons] at advances
  obtain ⟨steps, next, few, advances', reads⟩ := TokenReader.readAll_entry entry
    (startsKey_flatMap entries).startsLine rfl advances
  obtain ⟨fuel, enough, shape⟩ : ∃ fuel, (entries.flatMap Entry.lines).length < fuel ∧
      ((entry :: entries).flatMap Entry.lines).length + 1 = fuel + steps := by
    refine ⟨((entry :: entries).flatMap Entry.lines).length + 1 - steps, ?_, ?_⟩ <;>
      rw [List.flatMap_cons, List.length_append] <;> omega
  rw [tokensOf, shape, List.flatMap_cons, reads, TokenReader.readAll_entries entries
    (Mark.over_of_endsLine entry.endsLine_lines _).2 advances' enough]
  simp [TokenReader.opening]

theorem Part.isSettled_of_mem_written (part : Part) {c : Char} (member : c ∈ part.written) :
    isSettled c := by
  have inLine (line : ScalarLine) (inside : c ∈ line.written) : isSettled c :=
    line.isScalarLine.settled c inside
  match part with
  | .scalar line =>
      rcases List.mem_cons.mp member with rfl | inside
      · rfl
      · exact inLine line inside
  | .list [] =>
      have all : ∀ c ∈ (Part.list []).written, isSettled c := by decide
      exact all c member
  | .list (first :: others) =>
      rcases List.mem_cons.mp member with rfl | inside
      · rfl
      · obtain ⟨item, -, inside⟩ := List.mem_flatMap.mp inside
        simp only [ScalarLine.item, List.mem_cons] at inside
        rcases inside with rfl | rfl | inside
        · rfl
        · rfl
        · exact inLine item inside

theorem Entry.isSettled_of_mem_lines (entry : Entry) {c : Char} (member : c ∈ entry.lines) :
    isSettled c := by
  rw [lines, List.mem_append, List.mem_cons] at member
  rcases member with inKey | rfl | inPart
  · exact isSettled_of_isInline (entry.isKey.isInline_of_mem c inKey)
  · rfl
  · exact entry.part.isSettled_of_mem_written inPart

/-- The lines of several entries are the document of one mapping. -/
theorem documentOf_entries (entry : Entry) (entries : List Entry) :
    documentOf (String.ofList ((entry :: entries).flatMap Entry.lines)) =
      .ok (some ⟨.mapping .none (((entry :: entries).map Entry.toPair).map Pair.nodes), []⟩) := by
  have settled : ∀ c ∈ (entry :: entries).flatMap Entry.lines, isSettled c := by
    intro c member
    obtain ⟨entry, -, member⟩ := List.mem_flatMap.mp member
    exact entry.isSettled_of_mem_lines member
  exact documentOf_pairs (prepare_of_isSettled settled) (tokensOf_entries entry entries)

end AgentKit.Yaml
