/-
# Fields on lines of their own

A list of fields, each a key and a value on one line, is read field by field: between two
fields the reader of tokens is always in the same state, with one block mapping open and
nothing pending. So the tokens of the whole are the tokens of its fields in their order.
-/

import AgentKit.Proofs.Yaml.Line
import AgentKit.Yaml.Scalar

namespace AgentKit.Yaml

open Document (escape)

/-! ## Fields -/

/-- How a value can be written on one line: not at all, plainly or in double quotes. -/
inductive Written : List Char → ScalarStyle → List Char → Prop
  | absent : Written [] .plain []
  | plain {cs : List Char} (plain : IsPlain cs) : Written cs .plain cs
  | quoted {cs : List Char} (quotable : ∀ c ∈ cs, isQuotable c) :
      Written ('"' :: (escape cs ++ ['"'])) .doubleQuoted cs

/-- A text that begins a line as a key. -/
structure IsKey (cs : List Char) : Prop where
  plain : IsPlain cs
  begins : ∀ c ∈ cs.head?, c.isAlpha
  short : 4 * cs.length ≤ keyLength
  means : meaningOf cs = .text

namespace IsKey

variable {cs : List Char}

instance : DecidablePred IsKey := fun cs =>
  decidable_of_iff (IsPlain cs ∧ (∀ c ∈ cs.head?, c.isAlpha) ∧ 4 * cs.length ≤ keyLength ∧
      meaningOf cs = .text)
    ⟨fun ⟨plain, begins, short, means⟩ => ⟨plain, begins, short, means⟩,
      fun ⟨plain, begins, short, means⟩ => ⟨plain, begins, short, means⟩⟩

theorem exists_cons (isKey : IsKey cs) : ∃ c others, cs = c :: others ∧ c.isAlpha := by
  obtain ⟨c, others, shape⟩ := List.exists_cons_of_ne_nil isKey.plain.filled
  exact ⟨c, others, shape, isKey.begins c (by rw [shape]; rfl)⟩

theorem isInline_of_mem (isKey : IsKey cs) : ∀ c ∈ cs, isInline c :=
  fun c member => (isKey.plain.inside c member).1

end IsKey

/-- The tokens of a value. A value that is not written has none. -/
def valueTokens (written : List Char) (style : ScalarStyle) (value : List Char) : List Token :=
  if written = [] then [] else [.scalar style value]

/-- A key and a value, on one line. -/
structure Field where
  key : List Char
  written : List Char
  style : ScalarStyle
  value : List Char
  isKey : IsKey key
  writes : Written written style value

namespace Field

/-- The line of a field. -/
def line (field : Field) : List Char :=
  field.key ++ ':' :: ' ' :: field.written

/-- The tokens of a field. -/
def tokens (field : Field) : List Token :=
  .key :: .scalar .plain field.key :: .value ::
    valueTokens field.written field.style field.value

end Field

/-- The text of several fields: a line for each, and line feeds between the lines. -/
def linesOfFields (fields : List Field) : List Char :=
  ['\n'].intercalate (fields.map Field.line)

namespace TokenReader

variable {c : Char} {cs rest tail : List Char} {mark : Mark} {produced : List Token}
  {reader : TokenReader} {opened : Bool}

/-! ## Single steps -/

theorem closeBlocks_of_le {column indent : Int} (inside : indent ≤ column) (outer : List Int)
    (produced : List Token) :
    closeBlocks column indent outer produced = (indent, outer, produced) := by
  cases outer with
  | nil => rfl
  | cons next others => rw [closeBlocks, if_neg (by omega)]

theorem dedentTo_of_le {column : Int} (inside : reader.indent ≤ column) :
    reader.dedentTo column = reader := by
  unfold dedentTo
  split
  · rfl
  · rw [closeBlocks_of_le inside]

theorem passGap_solid {inFlow keyAllowed : Bool} (solid : isSolid c) (hash : c ≠ '#')
    (marked : mark.column = 0 → c ≠ byteOrderMark) :
    passGap inFlow false keyAllowed mark (c :: rest) = (⟨mark, c :: rest⟩, keyAllowed) := by
  simp only [isSolid, isBlank, Bool.and_eq_true, Bool.not_eq_true', Bool.or_eq_false_iff,
    decide_eq_false_iff_not] at solid
  obtain ⟨⟨space, tab⟩, line⟩ := solid
  have begins : ¬ (mark.column = 0 ∧ c = byteOrderMark) := fun both => marked both.1 both.2
  rw [passGap]
  simp [line, space, tab, hash, begins]

theorem dropStale_fresh {mark : Mark} {key : PendingKey} (fresh : key.isStale mark = false) :
    dropStale mark [some key] = .ok [some key] := by
  unfold dropStale
  rw [if_neg (by rw [fresh]; exact Bool.false_ne_true)]
  rfl

theorem advance_eq {cursor : Cursor} {keyAllowed : Bool} {pending : List (Option PendingKey)}
    (passes : passGap reader.inFlow false reader.keyAllowed reader.cursor.mark reader.cursor.rest =
      (cursor, keyAllowed))
    (fresh : dropStale cursor.mark reader.pending = .ok pending)
    (inside : reader.indent ≤ cursor.mark.column) :
    reader.advance = .ok { reader with
      cursor := cursor, keyAllowed := keyAllowed, pending := pending } := by
  unfold advance
  rw [passes]
  simp only [fresh, bind, Except.bind]
  exact congrArg Except.ok (dedentTo_of_le inside)

theorem readAll_succ {after next : TokenReader} (advances : reader.advance = .ok after)
    (stands : after.cursor.rest = c :: rest) (fetches : after.fetchAt c rest = .ok next)
    (fuel : Nat) : readAll (fuel + 1) reader = readAll fuel next := by
  rw [readAll]
  simp only [advances]
  split
  case h_1 ended => rw [ended] at stands; contradiction
  case h_2 begun =>
    obtain ⟨rfl, rfl⟩ := List.cons.inj (begun.symm.trans stands)
    simp only [fetches]

theorem fetchAt_plain (solid : isSolid c) (indicated : c ∉ indicators)
    (marked : reader.column = 0 → c ≠ '.') : reader.fetchAt c rest = reader.fetchPlain := by
  have begins : beginsPlain reader.inFlow c rest := by simp [beginsPlain, solid, indicated]
  have unmarked : (decide (reader.column = 0) && atDocumentMark (c :: rest)) = false := by
    by_cases start : reader.column = 0
    · have hyphen : c ≠ '-' := fun same => indicated (same ▸ List.mem_cons_self)
      simp [atDocumentMark, marked start, hyphen]
    · simp [start]
  simp only [indicators, List.mem_cons, List.not_mem_nil, or_false, not_or] at indicated
  unfold fetchAt
  simp [indicated, unmarked, begins]

/-! ## States between and inside fields -/

/-- The state in front of a key. Before the first one no mapping is open. -/
def atKey (opened : Bool) (produced : List Token) (cursor : Cursor) : TokenReader where
  cursor := cursor
  produced := produced
  pending := [none]
  indent := if opened then 0 else -1
  outer := if opened then [-1] else []
  keyAllowed := true

/-- The state behind a key and its colon, and behind a value. -/
def inValue (produced : List Token) (cursor : Cursor) : TokenReader where
  cursor := cursor
  produced := produced
  pending := [none]
  indent := 0
  outer := [-1]
  keyAllowed := false

/-- The state behind a field: in front of the next one, or at the end of the text. -/
def behind (produced : List Token) (mark : Mark) : List Char → TokenReader
  | '\n' :: rest => atKey true produced ⟨mark.next '\n', rest⟩
  | rest => inValue produced ⟨mark, rest⟩

/-- What can follow a field: nothing, or a line that begins with a letter. -/
def IsTail (tail : List Char) : Prop :=
  tail = [] ∨ ∃ c next, tail = '\n' :: c :: next ∧ c.isAlpha

/-- The token that opens the mapping in front of its first key. -/
def opening (opened : Bool) : List Token :=
  if opened then [] else [.blockMappingStart]

theorem isSolid_of_isAlpha (letter : c.isAlpha) : isSolid c := by
  have other : c ∉ [' ', '\t', '\n', '\u2028', '\u2029'] :=
    Text.not_mem_of_holds (·.isAlpha) letter (by decide)
  simp only [List.mem_cons, List.not_mem_nil, or_false, not_or] at other
  simp [isSolid, isBlank, isBreak, other]

theorem advance_atKey (start : mark.column = 0) (letter : c.isAlpha) :
    (atKey opened produced ⟨mark, c :: rest⟩).advance =
      .ok (atKey opened produced ⟨mark, c :: rest⟩) := by
  have other : c ∉ ['#', byteOrderMark] := Text.not_mem_of_holds (·.isAlpha) letter (by decide)
  simp only [List.mem_cons, List.not_mem_nil, or_false, not_or] at other
  refine advance_eq (passGap_solid (isSolid_of_isAlpha letter) other.1 fun _ => other.2) rfl ?_
  rw [start]
  cases opened <;> simp [atKey]

theorem fetchPlain_eq {saved : TokenReader} {plain : PlainReading}
    (saves : reader.saveKey = .ok saved)
    (reads : readPlain ⟨saved.inFlow, saved.indent + 1⟩ saved.cursor.mark .none []
      saved.cursor.rest = .ok plain) :
    reader.fetchPlain = .ok ({ saved with keyAllowed := plain.endsLine }.emit
      (.scalar .plain plain.text) plain.cursor) := by
  unfold fetchPlain
  simp only [saves, reads, bind, Except.bind]

/-- The key that may have begun in front of a field. -/
def keyAt (opened : Bool) (produced : List Token) (mark : Mark) : PendingKey where
  required := opened
  position := produced.length
  mark := mark

/-- The state between a key and its colon. -/
def behindKey (opened : Bool) (produced : List Token) (mark : Mark) (key rest : List Char) :
    TokenReader where
  cursor := ⟨mark.over key, rest⟩
  produced := .scalar .plain key :: produced
  pending := [some (keyAt opened produced mark)]
  indent := if opened then 0 else -1
  outer := if opened then [-1] else []
  keyAllowed := false

theorem saveKey_atKey (start : mark.column = 0) :
    (atKey opened produced ⟨mark, rest⟩).saveKey =
      .ok { atKey opened produced ⟨mark, rest⟩ with
        pending := [some (keyAt opened produced mark)] } := by
  cases opened <;>
    simp [saveKey, atKey, dropKey, inFlow, column, start, keyAt, bind, Except.bind]

theorem fetchPlain_key (isKey : IsKey cs) (gapped : atGap rest) (start : mark.column = 0) :
    (atKey opened produced ⟨mark, cs ++ ':' :: rest⟩).fetchPlain =
      .ok (behindKey opened produced mark cs (':' :: rest)) := by
  have stop : mark.column = 0 → cs.head? ≠ some '.' :=
    fun _ begins => absurd (isKey.begins '.' begins) (by decide)
  have shallow : (if opened then (0 : Int) else -1) + 1 ≤ 1 := by cases opened <;> decide
  have reads : readPlain ⟨false, (if opened then (0 : Int) else -1) + 1⟩ mark .none []
      (cs ++ ':' :: rest) = .ok ⟨cs, false, ⟨mark.over cs, ':' :: rest⟩⟩ := by
    rw [readPlain_plain rfl shallow isKey.plain stop, readPlain_colon gapped]
    simp
  exact fetchPlain_eq (saveKey_atKey start) reads

theorem advance_behindKey (isKey : IsKey cs) :
    (behindKey opened produced mark cs (':' :: rest)).advance =
      .ok (behindKey opened produced mark cs (':' :: rest)) := by
  have line := (Mark.over_of_isInline isKey.isInline_of_mem mark).1
  have fresh : (keyAt opened produced mark).isStale (mark.over cs) = false := by
    have near : (mark.over cs).index ≤ mark.index + keyLength :=
      Nat.le_trans (mark.index_over_le cs) (Nat.add_le_add_left isKey.short _)
    simp only [PendingKey.isStale, keyAt, line, Nat.lt_irrefl, decide_false, Bool.false_or]
    exact decide_eq_false (Nat.not_lt.mpr near)
  refine advance_eq (passGap_solid (by decide) (by decide) fun _ => by decide) ?_ ?_
  · exact dropStale_fresh fresh
  · cases opened <;> simp [behindKey]

/-- The colon behind a key puts the tokens of the key in front of it. -/
theorem fetchAt_behindKey (isKey : IsKey cs) (gapped : atGap rest) (start : mark.column = 0) :
    (behindKey opened produced mark cs (':' :: rest)).fetchAt ':' rest =
      .ok (inValue (.value :: .scalar .plain cs :: .key :: (opening opened ++ produced))
        ⟨mark.over (cs ++ [':']), rest⟩) := by
  have filled : 0 < cs.length := List.length_pos_iff.mpr isKey.plain.filled
  have later : (behindKey opened produced mark cs (':' :: rest)).column ≠ 0 := by
    have column := (Mark.over_of_isInline isKey.isInline_of_mem mark).2
    simp only [TokenReader.column, behindKey, column]
    omega
  have fetched : (behindKey opened produced mark cs (':' :: rest)).fetchAt ':' rest =
      (behindKey opened produced mark cs (':' :: rest)).fetchValue := by
    unfold fetchAt
    simp [later, gapped]
  rw [fetched, Mark.over_append]
  cases opened <;>
    simp [fetchValue, behindKey, inValue, markKey, keyAt, opensBlock, inFlow, start, insertAt,
      indentTo, emit, opening, Cursor.skip, Mark.over]

/-- A key and its colon are read in two steps. -/
theorem readAll_key (isKey : IsKey cs) (gapped : atGap rest) (start : mark.column = 0)
    (advances : reader.advance = .ok (atKey opened produced ⟨mark, cs ++ ':' :: rest⟩))
    (fuel : Nat) :
    readAll (fuel + 2) reader =
      readAll fuel (inValue (.value :: .scalar .plain cs :: .key :: (opening opened ++ produced))
        ⟨mark.over (cs ++ [':']), rest⟩) := by
  obtain ⟨c, others, rfl, letter⟩ := isKey.exists_cons
  have key : (atKey opened produced ⟨mark, c :: others ++ ':' :: rest⟩).fetchAt c
      (others ++ ':' :: rest) = .ok (behindKey opened produced mark (c :: others) (':' :: rest)) := by
    rw [fetchAt_plain (isSolid_of_isAlpha letter) (isKey.plain.begins c rfl).2
      fun _ same => absurd (same ▸ letter) (by decide)]
    exact fetchPlain_key isKey gapped start
  rw [readAll_succ advances rfl key,
    readAll_succ (advance_behindKey isKey) rfl (fetchAt_behindKey isKey gapped start)]

/-- Where the next token begins is all that matters about a cursor. -/
theorem advance_congr (cursor : Cursor)
    (passes : passGap reader.inFlow false reader.keyAllowed reader.cursor.mark reader.cursor.rest =
      passGap reader.inFlow false reader.keyAllowed cursor.mark cursor.rest) :
    reader.advance = { reader with cursor := cursor }.advance := by
  unfold advance
  rw [passes]
  rfl

theorem advance_space (produced : List Token) (mark : Mark) (rest : List Char) :
    (inValue produced ⟨mark, ' ' :: rest⟩).advance =
      (inValue produced ⟨mark.next ' ', rest⟩).advance := by
  refine advance_congr ⟨mark.next ' ', rest⟩ ?_
  change passGap false false false mark (' ' :: rest) = passGap false false false (mark.next ' ') rest
  rw [passGap]
  simp [show isBreak ' ' = false from rfl]

theorem advance_inValue (solid : isSolid c) (hash : c ≠ '#') (later : mark.column ≠ 0) :
    (inValue produced ⟨mark, c :: rest⟩).advance = .ok (inValue produced ⟨mark, c :: rest⟩) :=
  advance_eq (passGap_solid solid hash fun start => absurd start later) rfl (Int.natCast_nonneg _)

/-- Behind a value the next line begins, if there is one. -/
theorem advance_behind (isTail : IsTail tail) :
    (inValue produced ⟨mark, tail⟩).advance = .ok (behind produced mark tail) := by
  rcases isTail with rfl | ⟨c, next, rfl, letter⟩
  · exact advance_eq rfl rfl (Int.natCast_nonneg _)
  · have other : c ∉ ['#', byteOrderMark] := Text.not_mem_of_holds (·.isAlpha) letter (by decide)
    simp only [List.mem_cons, List.not_mem_nil, or_false, not_or] at other
    have passes : passGap false false false mark ('\n' :: c :: next) =
        (⟨mark.next '\n', c :: next⟩, true) := by
      rw [passGap, if_pos (by decide : isBreak '\n' = true)]
      exact passGap_solid (isSolid_of_isAlpha letter) other.1 fun _ => other.2
    exact advance_eq passes rfl (Int.natCast_nonneg _)

theorem behind_advance (isTail : IsTail tail) :
    (behind produced mark tail).advance = .ok (behind produced mark tail) := by
  rcases isTail with rfl | ⟨c, next, rfl, letter⟩
  · exact advance_behind (.inl rfl)
  · exact advance_atKey rfl letter

theorem fetchPlain_value (plain : IsPlain cs) (isTail : IsTail tail) (later : mark.column ≠ 0) :
    (inValue produced ⟨mark, cs ++ tail⟩).fetchPlain =
      .ok (behind (.scalar .plain cs :: produced) (mark.over cs) tail) := by
  have reads : readPlain ⟨false, 1⟩ mark .none [] (cs ++ tail) =
      readPlain ⟨false, 1⟩ (mark.over cs) .none cs.reverse tail :=
    readPlain_plain rfl (Int.le_refl _) plain (fun start => absurd start later) tail
  have saves : (inValue produced ⟨mark, cs ++ tail⟩).saveKey =
      .ok (inValue produced ⟨mark, cs ++ tail⟩) := rfl
  rcases isTail with rfl | ⟨c, next, rfl, letter⟩
  · rw [readPlain, List.reverse_reverse] at reads
    exact fetchPlain_eq saves reads
  · rw [readPlain_lineFeed rfl Int.one_pos (isSolid_of_isAlpha letter), List.reverse_reverse] at reads
    exact fetchPlain_eq saves reads

theorem fetchAt_quote (quotable : ∀ c ∈ cs, isQuotable c) :
    (inValue produced ⟨mark, '"' :: (escape cs ++ '"' :: tail)⟩).fetchAt '"'
        (escape cs ++ '"' :: tail) =
      .ok (inValue (.scalar .doubleQuoted cs :: produced)
        ⟨mark.over ('"' :: (escape cs ++ ['"'])), tail⟩) := by
  have fetched : (inValue produced ⟨mark, '"' :: (escape cs ++ '"' :: tail)⟩).fetchAt '"'
      (escape cs ++ '"' :: tail) =
        (inValue produced ⟨mark, '"' :: (escape cs ++ '"' :: tail)⟩).fetchQuoted .doubleQuoted := by
    unfold fetchAt
    simp [atDocumentMark]
  have later : (mark.next '"').column ≠ 0 := Nat.succ_ne_zero _
  have reads : readDoubleQuoted (mark.next '"') (.text .none) [] (escape cs ++ '"' :: tail) =
      .ok ⟨cs, ⟨(mark.next '"').over (escape cs ++ ['"']), tail⟩⟩ :=
    readDoubleQuoted_escape quotable later tail
  rw [fetched]
  unfold fetchQuoted
  simp only [saveKey, inValue, Bool.false_eq_true, if_false, bind, Except.bind, Cursor.skip, reads]
  rfl

/-! ## Whole fields -/

/-- A value is read in at most as many steps as it has characters. -/
theorem readAll_value {written value : List Char} {style : ScalarStyle}
    (writes : Written written style value) (isTail : IsTail tail) :
    ∃ steps next, steps ≤ written.length ∧
      next.advance = .ok (behind ((valueTokens written style value).reverse ++ produced)
        (mark.over (' ' :: written)) tail) ∧
      ∀ fuel, readAll (fuel + steps) (inValue produced ⟨mark, ' ' :: (written ++ tail)⟩) =
        readAll fuel next := by
  have later' : (mark.next ' ').column ≠ 0 := Nat.succ_ne_zero _
  cases writes with
  | absent =>
      exact ⟨0, _, Nat.zero_le _, (advance_space _ _ _).trans (advance_behind isTail), fun _ => rfl⟩
  | plain plain =>
      obtain ⟨c, others, rfl⟩ := List.exists_cons_of_ne_nil plain.filled
      obtain ⟨solid, indicated⟩ := plain.begins c rfl
      obtain ⟨-, -, hash, -⟩ := plain.inside c List.mem_cons_self
      refine ⟨1, _, Nat.succ_le_succ (Nat.zero_le _), behind_advance isTail, fun fuel => ?_⟩
      have begins : (inValue produced ⟨mark.next ' ', c :: (others ++ tail)⟩).column ≠ 0 := later'
      exact readAll_succ ((advance_space _ _ _).trans (advance_inValue solid hash later')) rfl
        ((fetchAt_plain solid indicated fun start => absurd start begins).trans
          (fetchPlain_value plain isTail later')) fuel
  | quoted quotable =>
      refine ⟨1, _, Nat.succ_le_succ (Nat.zero_le _), advance_behind isTail, fun fuel => ?_⟩
      rw [List.cons_append, List.append_assoc]
      exact readAll_succ ((advance_space _ _ _).trans
        (advance_inValue (by decide) (by decide) later')) rfl (fetchAt_quote quotable) fuel

/-- A field is read in at most as many steps as its line has characters. -/
theorem readAll_field (field : Field) (isTail : IsTail tail) (start : mark.column = 0)
    (advances : reader.advance = .ok (atKey opened produced ⟨mark, field.line ++ tail⟩)) :
    ∃ steps next, steps ≤ field.line.length ∧
      next.advance = .ok (behind (field.tokens.reverse ++ (opening opened ++ produced))
        (mark.over field.line) tail) ∧
      ∀ fuel, readAll (fuel + steps) reader = readAll fuel next := by
  have shape : field.line ++ tail = field.key ++ ':' :: ' ' :: (field.written ++ tail) := by
    simp [Field.line]
  rw [shape] at advances
  obtain ⟨steps, next, few, advances', reads⟩ := readAll_value field.writes isTail
  refine ⟨steps + 2, next, ?_, ?_, fun fuel => ?_⟩
  · simp only [Field.line, List.length_append, List.length_cons]
    omega
  · have marks : mark.over field.line =
        (mark.over (field.key ++ [':'])).over (' ' :: field.written) := by
      rw [← Mark.over_append]
      simp [Field.line]
    have tokens : field.tokens.reverse ++ (opening opened ++ produced) =
        (valueTokens field.written field.style field.value).reverse ++
          (.value :: .scalar .plain field.key :: .key :: (opening opened ++ produced)) := by
      simp [Field.tokens]
    rw [marks, tokens]
    exact advances'
  · rw [← Nat.add_assoc, readAll_key field.isKey rfl start advances, reads]

theorem readAll_finish {fuel : Nat} {after : TokenReader} (enough : 0 < fuel)
    (advances : reader.advance = .ok after) (ended : after.cursor.rest = []) :
    readAll fuel reader = after.finish := by
  obtain ⟨fuel, rfl⟩ := Nat.exists_eq_add_one_of_ne_zero (Nat.ne_of_gt enough)
  rw [readAll, advances]
  simp only [ended]

/-- At the end of the text the mapping is closed. -/
theorem readAll_end {fuel : Nat} (enough : 0 < fuel)
    (advances : reader.advance = .ok (inValue produced ⟨mark, []⟩)) :
    readAll fuel reader = .ok (produced.reverse ++ [.blockEnd]) := by
  rw [readAll_finish enough advances rfl]
  simp [inValue, finish, dedentTo, inFlow, closeBlocks, dropKey, bind, Except.bind]

theorem isTail_line (field : Field) (rest : List Char) : IsTail ('\n' :: (field.line ++ rest)) := by
  obtain ⟨c, others, shape, letter⟩ := field.isKey.exists_cons
  exact .inr ⟨c, others ++ ':' :: ' ' :: field.written ++ rest, by simp [Field.line, shape],
    letter⟩

/-- Fields are read one after the other. -/
theorem readAll_fields (field : Field) (fields : List Field) (start : mark.column = 0)
    (advances : reader.advance =
      .ok (atKey opened produced ⟨mark, linesOfFields (field :: fields)⟩)) {fuel : Nat}
    (enough : (linesOfFields (field :: fields)).length < fuel) :
    readAll fuel reader = .ok (produced.reverse ++ (opening opened ++
      ((field :: fields).flatMap Field.tokens ++ [.blockEnd]))) := by
  induction fields generalizing field reader opened produced mark fuel with
  | nil =>
      have whole : linesOfFields [field] = field.line ++ [] := by simp [linesOfFields]
      rw [whole] at advances enough
      obtain ⟨steps, next, few, advances', reads⟩ := readAll_field field (.inl rfl) start advances
      rw [List.append_nil] at enough
      obtain ⟨fuel, rfl⟩ : ∃ more, fuel = more + steps := ⟨fuel - steps, by omega⟩
      rw [reads, readAll_end (by omega) advances']
      cases opened <;> simp [opening]
  | cons second others ih =>
      have whole : linesOfFields (field :: second :: others) =
          field.line ++ '\n' :: linesOfFields (second :: others) := by
        simp [linesOfFields, List.intercalate_cons_cons]
      have isTail : IsTail ('\n' :: linesOfFields (second :: others)) := by
        cases others with
        | nil => simpa [linesOfFields] using isTail_line second []
        | cons third others =>
            simpa [linesOfFields, List.intercalate_cons_cons] using isTail_line second _
      rw [whole] at advances enough
      obtain ⟨steps, next, few, advances', reads⟩ := readAll_field field isTail start advances
      rw [List.length_append, List.length_cons] at enough
      obtain ⟨fuel, rfl⟩ : ∃ more, fuel = more + steps := ⟨fuel - steps, by omega⟩
      rw [reads, ih second rfl advances' (by omega)]
      cases opened <;> simp [opening]

end TokenReader

/-- The tokens of several fields. -/
theorem tokensOf_linesOfFields (field : Field) (fields : List Field) :
    tokensOf (linesOfFields (field :: fields)) =
      .ok (.blockMappingStart :: ((field :: fields).flatMap Field.tokens ++ [.blockEnd])) := by
  obtain ⟨c, others, shape, letter⟩ := field.isKey.exists_cons
  obtain ⟨rest, begins⟩ : ∃ rest, linesOfFields (field :: fields) = c :: rest := by
    cases fields <;> simp [linesOfFields, Field.line, shape, List.intercalate_cons_cons]
  have advances : (TokenReader.ofText (linesOfFields (field :: fields))).advance =
      .ok (TokenReader.atKey false [] ⟨.start, linesOfFields (field :: fields)⟩) := by
    have stays : (TokenReader.atKey false [] ⟨.start, c :: rest⟩).advance =
        .ok (TokenReader.atKey false [] ⟨.start, c :: rest⟩) := TokenReader.advance_atKey rfl letter
    rw [begins]
    exact stays
  exact TokenReader.readAll_fields field fields rfl advances (Nat.lt_succ_self _)

end AgentKit.Yaml
