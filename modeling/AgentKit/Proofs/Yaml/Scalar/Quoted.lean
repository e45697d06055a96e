/-
# Reading what is written in quotes

In single quotes a line break of Unicode stays, and the indentation behind it does not
count; spaces around it would be lost, but then the text is not written in single quotes.
In double quotes every character is one or several characters of the same line, so that
any text at all can be read back.
-/

import AgentKit.Proofs.Yaml.Scalar.Plain

namespace AgentKit.Yaml

variable {c previous : Char} {cs rest text : List Char} {mark : Mark} {gap : Gap}

/-! ## Single quotes -/

/-- What was passed behind a character in quotes: line breaks behind one of them, and else
blanks or nothing. -/
def Gap.IsAfter (gap : Gap) (previous : Char) : Prop :=
  if isBreak previous then
    ∃ first reversed, first ≠ '\n' ∧ gap = .breaks (some first) reversed
  else gap.IsBehind previous

theorem Gap.text_breaks (other : c ≠ '\n') (reversed : List Char) :
    (Gap.breaks (some c) reversed).text = c :: reversed.reverse := by
  unfold Gap.text
  split <;> simp_all

/-- A line break other than the line feed stays in the text, if no blank is before it. -/
theorem Gap.IsAfter.addBreak (after : gap.IsAfter previous) (line : isBreak c) (feed : c ≠ '\n')
    (blank : isBlank previous = false) :
    (gap.addBreak c).IsAfter c ∧ (gap.addBreak c).text.reverse = c :: gap.text.reverse := by
  rw [IsAfter, if_pos line]
  by_cases broken : isBreak previous
  · rw [IsAfter, if_pos broken] at after
    obtain ⟨first, reversed, other, rfl⟩ := after
    refine ⟨⟨first, c :: reversed, other, rfl⟩, ?_⟩
    simp [Gap.addBreak, text_breaks other]
  · rw [IsAfter, if_neg broken] at after
    obtain rfl := after.2.mpr (by simp [isSolid, blank, broken])
    refine ⟨⟨c, [], feed, rfl⟩, ?_⟩
    rw [Gap.addBreak, text_breaks feed]
    rfl

theorem hasPair_cons {p q : Char → Bool} (none : hasPair p q (previous :: c :: rest) = false) :
    (p previous → q c = false) ∧ hasPair p q (c :: rest) = false := by
  simp only [hasPair, Bool.or_eq_false_iff, Bool.and_eq_false_iff] at none
  exact ⟨fun first => none.1.resolve_left (by simp [first]), none.2⟩

/-- Behind a line break the indentation is passed. -/
theorem readSingleQuoted_indent (after : gap.IsAfter previous)
    (later : isBreak previous = false → mark.column ≠ 0) (text rest : List Char) :
    (mark.over (if isBreak previous then innerIndent else [])).column ≠ 0 ∧
      readSingleQuoted mark gap text ((if isBreak previous then innerIndent else []) ++ rest) =
        readSingleQuoted (mark.over (if isBreak previous then innerIndent else [])) gap text
          rest := by
  by_cases broken : isBreak previous
  · rw [Gap.IsAfter, if_pos broken] at after
    obtain ⟨first, reversed, -, rfl⟩ := after
    rw [if_pos broken]
    refine ⟨Nat.succ_ne_zero _, ?_⟩
    simp [innerIndent, readSingleQuoted, isBlank, Gap.addBlank, Mark.over]
  · rw [if_neg broken]
    exact ⟨later (by simpa using broken), rfl⟩

theorem readSingleQuoted_quote (later : mark.column ≠ 0) (apart : rest.head? ≠ some '\'')
    (text : List Char) :
    readSingleQuoted mark gap text ('\'' :: rest) =
      .ok ⟨(gap.text.reverse ++ text).reverse, ⟨mark.next '\'', rest⟩⟩ := by
  rw [readSingleQuoted]
  · simp [isBlank, isBreak, later]
  · rintro others - rfl
    contradiction

/-- A solid character is read as it is, and a quote that is written twice as one. -/
theorem readSingleQuoted_solid (solid : isSolid c) (later : mark.column ≠ 0)
    (text rest : List Char) :
    readSingleQuoted mark gap text ((if c = '\'' then ['\'', '\''] else [c]) ++ rest) =
      readSingleQuoted (mark.over (if c = '\'' then ['\'', '\''] else [c])) .none
        (c :: (gap.text.reverse ++ text)) rest := by
  by_cases quote : c = '\''
  · subst quote
    rw [if_pos rfl]
    rfl
  · rw [if_neg quote]
    simp [isSolid] at solid
    rw [List.singleton_append, readSingleQuoted]
    · simp [solid, later, quote, Mark.over]
    · rintro others rfl
      exact absurd rfl quote

theorem readSingleQuoted_break (line : isBreak c) (text rest : List Char) :
    readSingleQuoted mark gap text (c :: rest) =
      readSingleQuoted (mark.next c) (gap.addBreak c) text rest := by
  have quote : c ≠ '\'' := by rintro rfl; contradiction
  have blank : isBlank c = false := by
    simp only [isBreak, Bool.or_eq_true, decide_eq_true_eq] at line
    rcases line with (rfl | rfl) | rfl <;> rfl
  rw [readSingleQuoted]
  · simp [blank, line]
  · rintro others rfl
    exact absurd rfl quote

theorem readSingleQuoted_blank (blank : isBlank c) (text rest : List Char) :
    readSingleQuoted mark gap text (c :: rest) =
      readSingleQuoted (mark.next c) (gap.addBlank c) text rest := by
  rw [readSingleQuoted]
  · simp [blank]
  · rintro others rfl
    contradiction

/-- What is written in single quotes for a character behind another one. -/
def singleQuotedPart (previous c : Char) : List Char :=
  if isBreak c then [c]
  else (if isBreak previous then innerIndent else []) ++ if c = '\'' then ['\'', '\''] else [c]

theorem writeSingleQuotedFrom_cons (previous c : Char) (cs : List Char) :
    writeSingleQuotedFrom (isBreak previous) (c :: cs) =
      singleQuotedPart previous c ++ writeSingleQuotedFrom (isBreak c) cs := by
  rw [writeSingleQuotedFrom, singleQuotedPart]
  cases line : isBreak c <;> simp

/-- One more character is taken up, or waits in the gap behind it. -/
theorem readSingleQuoted_part (known : isPrintable previous) (here : isPrintable c)
    (feed : c ≠ '\n') (before : isSpace previous → isBreak c = false)
    (behind : isBreak previous → isSpace c = false) (after : gap.IsAfter previous)
    (later : isBreak previous = false → mark.column ≠ 0) (text : List Char) :
    ∃ gap' text', gap'.IsAfter c ∧
      (isBreak c = false → (mark.over (singleQuotedPart previous c)).column ≠ 0) ∧
      gap'.text.reverse ++ text' = c :: (gap.text.reverse ++ text) ∧
      ∀ rest, readSingleQuoted mark gap text (singleQuotedPart previous c ++ rest) =
        readSingleQuoted (mark.over (singleQuotedPart previous c)) gap' text' rest := by
  by_cases line : isBreak c
  · have blank : isBlank previous = false := by
      refine Bool.eq_false_iff.mpr fun blank => ?_
      obtain rfl := eq_space_of_isBlank known blank
      exact absurd line (by simp [before rfl])
    obtain ⟨after', taken⟩ := after.addBreak line feed blank
    rw [singleQuotedPart, if_pos line]
    refine ⟨gap.addBreak c, text, after', by simp [line], by rw [taken]; rfl, fun rest => ?_⟩
    exact readSingleQuoted_break line text rest
  · have line' : isBreak c = false := by simpa using line
    have inline := isInline_of_isPrintable here line'
    rw [singleQuotedPart, if_neg line]
    by_cases blank : isBlank c
    · obtain rfl := eq_space_of_isBlank here blank
      have broken : ¬ isBreak previous := fun broken => absurd (behind broken) (by decide)
      rw [Gap.IsAfter, if_neg broken] at after
      obtain ⟨after', taken⟩ := after.addBlank blank
      rw [if_neg broken]
      refine ⟨gap.addBlank ' ', text, after', fun _ => Nat.succ_ne_zero _, by rw [taken]; rfl,
        fun rest => ?_⟩
      exact readSingleQuoted_blank blank text rest
    · have solid : isSolid c := by simp [isSolid, blank, line']
      have after' : Gap.none.IsAfter c := by
        rw [Gap.IsAfter, if_neg line]
        exact Gap.isBehind_none solid
      obtain ⟨later', -⟩ := readSingleQuoted_indent after later text []
      refine ⟨.none, _, after', fun _ => ?_, rfl, fun rest => ?_⟩
      · rw [Mark.over_append]
        refine Mark.column_over_ne_zero ?_ later'
        split <;> simp [inline, show isInline '\'' from rfl]
      · rw [List.append_assoc, (readSingleQuoted_indent after later text _).2,
          readSingleQuoted_solid solid later', Mark.over_append]

/-- What is written in single quotes behind a character is read back, up to the closing
quote. -/
theorem readSingleQuoted_from (printable : ∀ d ∈ previous :: cs, isPrintable d)
    (feed : '\n' ∉ cs) (before : hasPair isSpace isBreak (previous :: cs) = false)
    (behind : hasPair isBreak isSpace (previous :: cs) = false) (after : gap.IsAfter previous)
    (later : isBreak previous = false → mark.column ≠ 0) (apart : rest.head? ≠ some '\'')
    (text : List Char) :
    readSingleQuoted mark gap text (writeSingleQuotedFrom (isBreak previous) cs ++ rest) =
      .ok ⟨(gap.text.reverse ++ text).reverse ++ cs,
        ⟨mark.over (writeSingleQuotedFrom (isBreak previous) cs), rest⟩⟩ := by
  induction cs generalizing mark gap text previous with
  | nil =>
      obtain ⟨later', reads⟩ := readSingleQuoted_indent after later text ('\'' :: rest)
      rw [writeSingleQuotedFrom, List.append_assoc, List.singleton_append, reads,
        readSingleQuoted_quote later' apart, Mark.over_append, List.append_nil]
      rfl
  | cons c cs ih =>
      obtain ⟨known, printable⟩ := List.forall_mem_cons.mp printable
      obtain ⟨other, feed⟩ := not_or.mp (mt List.mem_cons.mpr feed)
      obtain ⟨space, before⟩ := hasPair_cons before
      obtain ⟨spaceless, behind⟩ := hasPair_cons behind
      obtain ⟨gap', text', after', later', whole, reads⟩ := readSingleQuoted_part known
        (printable c List.mem_cons_self) (Ne.symm other) space spaceless after later text
      rw [writeSingleQuotedFrom_cons, List.append_assoc, reads,
        ih printable feed before behind after' later', whole, Mark.over_append]
      simp

/-- What fits single quotes is read back behind the opening quote. -/
theorem readSingleQuoted_written (fits : fitsSingleQuotes cs) (feed : '\n' ∉ cs)
    (later : mark.column ≠ 0) (apart : rest.head? ≠ some '\'') :
    readSingleQuoted mark .none [] (writeSingleQuotedFrom false cs ++ rest) =
      .ok ⟨cs, ⟨mark.over (writeSingleQuotedFrom false cs), rest⟩⟩ := by
  simp only [fitsSingleQuotes, isWritable, Bool.and_eq_true, Bool.not_eq_true'] at fits
  obtain ⟨⟨printable, before⟩, behind⟩ := fits
  -- The opening quote is the character before the text.
  have quote {p q : Char → Bool} (other : p '\'' = false) (none : hasPair p q cs = false) :
      hasPair p q ('\'' :: cs) = false := by
    cases cs with
    | nil => rfl
    | cons c rest => simp [hasPair, other, none]
  exact @readSingleQuoted_from '\'' cs rest mark .none
    (List.forall_mem_cons.mpr ⟨rfl, List.all_eq_true.mp printable⟩) feed (quote rfl before)
    (quote rfl behind) (Gap.isBehind_none rfl) (fun _ => later) apart []

/-! ## Double quotes -/

theorem hexValue?_upperHexDigit : ∀ n < 16, hexValue? (upperHexDigit n) = some n := by decide

theorem isInline_upperHexDigit : ∀ n < 16, isInline (upperHexDigit n) := by decide

theorem isInline_of_mem_hexDigits {width n : Nat} (member : c ∈ hexDigits width n) :
    isInline c := by
  induction width generalizing n with
  | zero => cases member
  | succ width ih =>
      rcases List.mem_append.mp member with earlier | last
      · exact ih earlier
      · rw [List.mem_singleton.mp last]
        exact isInline_upperHexDigit _ (Nat.mod_lt n (by decide))

theorem charOfCode?_toNat (c : Char) : charOfCode? c.toNat = some c := by
  have same := Char.ofNat_toNat c
  have valid : c.toNat.isValidChar := c.valid
  rw [Char.ofNat, dif_pos valid] at same
  rw [charOfCode?, dif_pos valid, same]

theorem readDoubleQuoted_digit {digit : Nat} (small : digit < 16) (more number : Nat)
    (text rest : List Char) :
    readDoubleQuoted mark (.code (more + 2) number) text (upperHexDigit digit :: rest) =
      readDoubleQuoted (mark.next (upperHexDigit digit))
        (.code (more + 1) (number * 16 + digit)) text rest := by
  rw [readDoubleQuoted]
  simp [hexValue?_upperHexDigit digit small]

theorem readDoubleQuoted_lastDigit {digit number : Nat} (small : digit < 16)
    (means : number * 16 + digit = c.toNat) (text rest : List Char) :
    readDoubleQuoted mark (.code 1 number) text (upperHexDigit digit :: rest) =
      readDoubleQuoted (mark.next (upperHexDigit digit)) (.text .none) (c :: text) rest := by
  rw [readDoubleQuoted]
  simp [hexValue?_upperHexDigit digit small, means, charOfCode?_toNat]

/-- All digits but the last are read into the number. -/
theorem readDoubleQuoted_hexDigits (width n more number : Nat) (text rest : List Char) :
    readDoubleQuoted mark (.code (more + 1 + width) number) text (hexDigits width n ++ rest) =
      readDoubleQuoted (mark.over (hexDigits width n))
        (.code (more + 1) (number * Nat.pow 16 width + n % Nat.pow 16 width)) text rest := by
  induction width generalizing n more rest with
  | zero => simp [hexDigits, Mark.over, Nat.mod_one]
  | succ width ih =>
      have shape : more + 1 + (width + 1) = (more + 1) + 1 + width := by omega
      have value : (number * Nat.pow 16 width + n / 16 % Nat.pow 16 width) * 16 + n % 16 =
          number * Nat.pow 16 (width + 1) + n % Nat.pow 16 (width + 1) := by
        have power : Nat.pow 16 (width + 1) = 16 * Nat.pow 16 width := Nat.pow_succ'
        rw [power, Nat.mod_mul, Nat.mul_left_comm]
        omega
      rw [hexDigits, List.append_assoc, shape, ih, List.singleton_append,
        readDoubleQuoted_digit (Nat.mod_lt n (by decide)), value, Mark.over_append]
      rfl

/-- The number of a character stands for it, if the digits are enough. -/
theorem standsFor_code {letter : Char} {width : Nat}
    (means : escapeOf? letter = some (.digits (width + 1))) (inline : isInline letter)
    (enough : c.toNat < Nat.pow 16 (width + 1)) :
    StandsFor ('\\' :: letter :: hexDigits (width + 1) c.toNat) c := by
  refine ⟨?_, fun mark gap text later _ => ⟨.none, _, rfl, rfl, fun rest => ?_⟩⟩
  · simp only [List.forall_mem_cons]
    exact ⟨rfl, inline, fun d member => isInline_of_mem_hexDigits member⟩
  · have opened : readDoubleQuoted mark (.text gap) text
        ('\\' :: letter :: (hexDigits (width + 1) c.toNat ++ rest)) =
          readDoubleQuoted ((mark.next '\\').next letter) (.code (0 + 1 + width) 0)
            (gap.text.reverse ++ text) (hexDigits (width + 1) c.toNat ++ rest) := by
      have visible := not_isBreak_of_isInline inline
      rw [readDoubleQuoted]
      simp only [show isBlank '\\' = false from rfl, show isBreak '\\' = false from rfl, later]
      simp [readDoubleQuoted, visible, means, Nat.add_comm]
    have value : c.toNat / 16 % Nat.pow 16 width * 16 + c.toNat % 16 = c.toNat := by
      have power : Nat.pow 16 (width + 1) = 16 * Nat.pow 16 width := Nat.pow_succ'
      have quotient : c.toNat / 16 < Nat.pow 16 width := by omega
      rw [Nat.mod_eq_of_lt quotient]
      omega
    rw [List.cons_append, List.cons_append, opened, hexDigits, List.append_assoc,
      readDoubleQuoted_hexDigits, List.singleton_append,
      readDoubleQuoted_lastDigit (Nat.mod_lt _ (by decide)) (by simpa using value)]
    simp [Mark.over_cons, Mark.over_append]
    rfl

theorem standsFor_writeCode (c : Char) : StandsFor ('\\' :: writeCode c.toNat) c := by
  rw [writeCode]
  split
  · next small => exact standsFor_code rfl rfl (Nat.lt_of_le_of_lt small (by decide))
  · split
    · next small => exact standsFor_code rfl rfl (Nat.lt_of_le_of_lt small (by decide))
    · have bound : c.toNat < 0x110000 := by
        have valid := c.valid
        simp only [UInt32.isValidChar, Nat.isValidChar] at valid
        simp only [Char.toNat]
        omega
      exact standsFor_code rfl rfl (Nat.lt_trans bound (by decide))

/-- Every escape stands for its character. -/
theorem standsFor_writeEscape (c : Char) : StandsFor ('\\' :: writeEscape c) c := by
  unfold writeEscape
  split
  case h_15 => exact standsFor_writeCode c
  all_goals exact standsFor_letter rfl rfl

/-- What is written in double quotes for a character. -/
def doubleQuotedPart (c : Char) : List Char :=
  if needsEscape c then '\\' :: writeEscape c else [c]

theorem standsFor_doubleQuotedPart (c : Char) : StandsFor (doubleQuotedPart c) c := by
  rw [doubleQuotedPart]
  split
  · exact standsFor_writeEscape c
  · next plain =>
    simp only [needsEscape, Bool.or_eq_true, Bool.not_eq_true', decide_eq_true_eq, not_or,
      Bool.not_eq_false] at plain
    obtain ⟨⟨⟨printable, line⟩, quote⟩, backslash⟩ := plain
    exact standsFor_self (isInline_of_isPrintable printable (by simpa using line)) quote backslash

/-- Any text that is written in double quotes is read back behind the opening quote. -/
theorem readDoubleQuoted_written (cs : List Char) (later : mark.column ≠ 0) (rest : List Char) :
    readDoubleQuoted mark (.text .none) [] (cs.flatMap doubleQuotedPart ++ '"' :: rest) =
      .ok ⟨cs, ⟨mark.over (cs.flatMap doubleQuotedPart ++ ['"']), rest⟩⟩ :=
  readDoubleQuoted_flatMap (fun c _ => standsFor_doubleQuotedPart c) later rfl [] rest

end AgentKit.Yaml
