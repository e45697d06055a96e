/-
# Reading frontmatter

A text that was written as the value of a field is read back as a text, unless it is one of
the numbers that frontmatter does not know. The separators of Unicode are left out: they are
written as they are, and they end the line wherever they stand.
-/

import AgentKit.Proofs.Text.Trimming
import AgentKit.Proofs.Yaml.FieldValues
import AgentKit.Proofs.Yaml.Meaning

namespace AgentKit

/-! ## Visible characters -/

/-- A visible character of ASCII is no white space. -/
theorem Text.not_isBlank_of_visible {c : Char} (low : 0x21 ≤ c.toNat) (high : c.toNat ≤ 0x7E) :
    isBlank c = false := by
  simp only [isBlank, blankRanges, List.any_cons, List.any_nil, Bool.or_false, Bool.or_eq_false_iff,
    Bool.and_eq_false_iff, decide_eq_false_iff_not]
  omega

namespace Yaml

variable {cs : List Char} {c : Char}

/-! ## What is quoted -/

/-- When a text is not quoted. -/
theorem needsQuotes_eq_false_iff :
    needsQuotes cs = false ↔ cs ≠ [] ∧ Text.trim cs = cs ∧ startsLikeItem cs = false ∧
      (∀ c ∈ cs, c ∉ reservedChars) ∧
      reservedWords.contains (String.ofList (Text.lower cs)) = false ∧
      Number.isNumberNotation cs = false := by
  simp only [needsQuotes, Bool.or_eq_false_iff, bne_eq_false_iff_eq, List.any_eq_false,
    List.contains_iff_mem, List.isEmpty_eq_false_iff, and_assoc, ne_eq]

theorem begins_of_startsLikeItem (item : startsLikeItem cs = false) :
    ∀ c ∈ cs.head?, c ≠ '-' ∧ c ≠ '?' := by
  intro c first
  obtain ⟨rest, rfl⟩ := List.head?_eq_some_iff.mp first
  simpa [startsLikeItem] using item

/-- A text without quotes can be read where it stands. -/
theorem isPlain_of_unquoted (unquoted : needsQuotes cs = false)
    (quotable : ∀ c ∈ cs, isQuotable c) : IsPlain cs := by
  obtain ⟨filled, trimmed, item, unreserved, -, -⟩ := needsQuotes_eq_false_iff.mp unquoted
  have isTrimmed : Text.IsTrimmed cs := trimmed ▸ Text.isTrimmed_trim cs
  have other : ∀ c ∈ cs, ∀ d ∈ reservedChars, c ≠ d :=
    fun c member d known same => unreserved c member (same ▸ known)
  have solid : ∀ c ∈ cs, ¬ Text.isBlank c → isSolid c := by
    intro c member visible
    have space : c ≠ ' ' := fun same => visible (same ▸ by decide)
    have tab := other c member '\t' (by decide)
    have feed := other c member '\n' (by decide)
    have inside := quotable c member
    simp only [isQuotable, Bool.and_eq_true, bne_iff_ne] at inside
    simp [isSolid, isBlank, isBreak, space, tab, feed, inside]
  refine ⟨filled, fun c first => ?_, fun c last => ?_, fun c member => ?_⟩
  · have member := List.mem_of_mem_head? first
    refine ⟨solid c member (isTrimmed.1 c first), fun indicator => ?_⟩
    have known : ∀ d ∈ TokenReader.indicators, d = '-' ∨ d = '?' ∨ d ∈ reservedChars := by decide
    obtain ⟨hyphen, question⟩ := begins_of_startsLikeItem item c first
    rcases known c indicator with same | same | reserved
    · exact hyphen same
    · exact question same
    · exact unreserved c member reserved
  · exact solid c (List.mem_of_mem_getLast? last) (isTrimmed.2 c last)
  · have inline : isInline c := by
      have feed := other c member '\n' (by decide)
      have carriage := other c member '\r' (by decide)
      simp [isInline, quotable c member, feed, carriage]
    exact ⟨inline, other c member ':' (by decide), other c member '#' (by decide),
      other c member '\t' (by decide)⟩

/-- A text without quotes is a text, unless it is a number that frontmatter does not know. -/
theorem meaningOf_unquoted (unquoted : needsQuotes cs = false) :
    meaningOf cs = .text ↔ ¬ IsBareNumber cs := by
  obtain ⟨filled, -, item, -, word, decimal⟩ := needsQuotes_eq_false_iff.mp unquoted
  have unreserved (words : List String)
      (known : ∀ text ∈ words.map String.toList,
        reservedWords.contains (String.ofList (Text.lower text))) :
      words.contains (String.ofList cs) = false :=
    Bool.eq_false_iff.mpr fun member => by
      rw [known cs (contains_ofList.mp member)] at word
      contradiction
  constructor
  · exact fun text bare => bare.meaningOf_ne_text text
  · intro not_bare
    by_contra no_text
    have unsigned : cs.head? ≠ some '-' :=
      fun first => (begins_of_startsLikeItem item '-' first).1 rfl
    rcases meaningOf_cases no_text unsigned with empty | null | truth | reads | bare
    · exact filled empty
    · rw [isNullWord, unreserved nullWords (by decide)] at null
      contradiction
    · unfold boolOf? at truth
      rw [unreserved _ (by decide), unreserved _ (by decide)] at truth
      contradiction
    · simp [Number.isNumberNotation, reads] at decimal
    · exact not_bare bare

/-! ## Numbers are not quoted -/

/-- The characters of the numbers that frontmatter does not know. -/
def isNumberChar (c : Char) : Bool :=
  c.isAlphanum || c = '+' || c = '.'

theorem visible_of_isNumberChar (inside : isNumberChar c) : 0x21 ≤ c.toNat ∧ c.toNat ≤ 0x7E := by
  simp only [isNumberChar, Bool.or_eq_true, decide_eq_true_eq] at inside
  rcases inside with (letter | rfl) | rfl
  · rw [Text.isAlphanum_iff, Text.isAlpha_iff] at letter
    omega
  · decide
  · decide

theorem isNumberChar_of_digitOf? {base digit : Nat} (means : digitOf? base c = some digit) :
    isNumberChar c := by
  have ranges : ('0' ≤ c ∧ c ≤ '9') ∨ ('a' ≤ c ∧ c ≤ 'f') ∨ ('A' ≤ c ∧ c ≤ 'F') := by
    by_contra other
    simp only [not_or] at other
    simp [digitOf?, other] at means
  have letter : c.isAlphanum := by
    rw [Text.isAlphanum_iff, Text.isAlpha_iff]
    change (48 ≤ c.toNat ∧ c.toNat ≤ 57) ∨ (97 ≤ c.toNat ∧ c.toNat ≤ 102) ∨
      (65 ≤ c.toNat ∧ c.toNat ≤ 70) at ranges
    omega
  simp [isNumberChar, letter]

namespace IsBareNumber

theorem isNumberChar_of_mem (bare : IsBareNumber cs) : ∀ c ∈ cs, isNumberChar c := by
  have sign_chars {sign : List Char} (plus : IsPlus sign) : ∀ c ∈ sign, isNumberChar c := by
    rcases plus with rfl | rfl <;> decide
  cases bare with
  | @based sign digits letter base value plus known means bounded =>
      have letters : ∀ pair ∈ baseLetters, isNumberChar pair.1 := by decide
      simp only [List.forall_mem_append, List.forall_mem_cons]
      refine ⟨sign_chars plus, by decide, letters _ known, fun c member => ?_⟩
      obtain ⟨digit, means⟩ :=
        Option.isSome_iff_exists.mp ((digits_of_naturalOf? means).2 c member)
      exact isNumberChar_of_digitOf? means
  | infinite plus known =>
      have words : ∀ word ∈ [".inf", ".Inf", ".INF"], ∀ c ∈ word.toList, isNumberChar c := by decide
      exact List.forall_mem_append.mpr ⟨sign_chars plus, words _ known⟩
  | notANumber known =>
      have words : ∀ word ∈ [".nan", ".NaN", ".NAN"], ∀ c ∈ word.toList, isNumberChar c := by decide
      exact words _ known

theorem not_isNumberNotation (bare : IsBareNumber cs) : Number.isNumberNotation cs = false := by
  cases bare with
  | @based sign digits letter base value plus known means bounded =>
      have body : Number.splitSign (sign ++ '0' :: letter :: digits) =
          (false, '0' :: letter :: digits) := by
        rcases plus with rfl | rfl <;> rfl
      have word : Number.nonFiniteWords.contains
          (String.ofList (('0' :: letter :: digits).map Char.toLower)) = false :=
        BeginsBare.not_contains ⟨'0', by decide, rfl⟩ (by decide)
      have decimal : Number.Decimal.read (sign ++ '0' :: letter :: digits) = none := by
        simp only [baseLetters, List.mem_cons, Prod.mk.injEq, List.not_mem_nil, or_false] at known
        rcases known with ⟨rfl, rfl⟩ | ⟨rfl, rfl⟩ | ⟨rfl, rfl⟩ <;>
          simp [Number.Decimal.read, body, Number.isDigit, Number.splitFraction, Number.readExponent]
      simp only [Number.isNumberNotation, decimal, body, word]
      rfl
  | infinite plus known =>
      have words : ∀ word ∈ [".inf", ".Inf", ".INF"], ∀ sign ∈ [[], ['+']],
          Number.isNumberNotation (sign ++ word.toList) = false := by decide
      exact words _ known _ (by simpa [IsPlus] using plus)
  | notANumber known =>
      have words : ∀ word ∈ [".nan", ".NaN", ".NAN"],
          Number.isNumberNotation word.toList = false := by decide
      exact words _ known

theorem needsQuotes_eq_false (bare : IsBareNumber cs) : needsQuotes cs = false := by
  have visible : ∀ c ∈ cs, Text.isBlank c = false := fun c member =>
    have ⟨low, high⟩ := visible_of_isNumberChar (bare.isNumberChar_of_mem c member)
    Text.not_isBlank_of_visible low high
  have isTrimmed : Text.IsTrimmed cs :=
    ⟨fun c first => by simp [visible c (List.mem_of_mem_head? first)],
      fun c last => by simp [visible c (List.mem_of_mem_getLast? last)]⟩
  have no_reserved : ∀ d ∈ reservedChars, isNumberChar d = false := by decide
  obtain ⟨c, known, first⟩ := bare.begins
  obtain ⟨rest, rfl⟩ := List.head?_eq_some_iff.mp first
  have items : ∀ c ∈ ['0', '+', '.'], c ≠ '-' ∧ c ≠ '?' := by decide
  have lowers : ∀ c ∈ ['0', '+', '.'], Text.lowerChar c = [c] := by decide
  have word : reservedWords.contains (String.ofList (Text.lower (c :: rest))) = false := by
    refine BeginsBare.not_contains ⟨c, known, ?_⟩ (by decide)
    rw [Text.lower, List.flatMap_cons, lowers c known]
    rfl
  refine needsQuotes_eq_false_iff.mpr ⟨List.cons_ne_nil _ _, Text.trim_eq_self isTrimmed, ?_, ?_,
    word, bare.not_isNumberNotation⟩
  · simp [startsLikeItem, items c known]
  · intro d member reserved
    have inside := bare.isNumberChar_of_mem d member
    rw [no_reserved d reserved] at inside
    contradiction

end IsBareNumber

/-! ## The value of a field -/

/-- How a text is written as the value of a field. -/
def frontmatterStyle (value : String) : ScalarStyle :=
  if needsQuotes value.toList then .doubleQuoted else .plain

theorem writes_frontmatterScalar {value : String} (quotable : ∀ c ∈ value.toList, isQuotable c) :
    Written (frontmatterScalar value).toList (frontmatterStyle value) value.toList := by
  by_cases quoted : needsQuotes value.toList
  · rw [frontmatterScalar, frontmatterStyle, if_pos quoted, if_pos quoted]
    have written : (Document.quoted value).toList =
        '"' :: (Document.escape value.toList ++ ['"']) := by
      simp [Document.quoted, Document.escaped]
    rw [written]
    exact .quoted quotable
  · rw [frontmatterScalar, frontmatterStyle, if_neg quoted, if_neg quoted]
    exact .plain (isPlain_of_unquoted (Bool.eq_false_iff.mpr quoted) quotable)

theorem untaggedValue_plain (cs : List Char) : untaggedValue .plain cs = plainValue cs := by
  rw [untaggedValue, if_pos rfl]

theorem plainValue_eq_string_iff :
    plainValue cs = .ok (.string (String.ofList cs)) ↔ meaningOf cs = .text := by
  unfold plainValue
  split
  case h_3 value means =>
    split <;> simp [means]
  all_goals simp_all

/-- What was written for a text is that text, unless it is a number without quotes. -/
theorem untaggedValue_frontmatterScalar (value : String) :
    untaggedValue (frontmatterStyle value) value.toList = .ok (.string value) ↔
      ¬ IsBareNumber value.toList := by
  have whole : value = String.ofList value.toList := String.ofList_toList.symm
  by_cases quoted : needsQuotes value.toList
  · have not_bare : ¬ IsBareNumber value.toList := fun bare => by
      rw [bare.needsQuotes_eq_false] at quoted
      contradiction
    simp [frontmatterStyle, quoted, untaggedValue, not_bare]
  · have unquoted := Bool.eq_false_iff.mpr quoted
    rw [frontmatterStyle, if_neg quoted, untaggedValue_plain, ← meaningOf_unquoted unquoted,
      ← plainValue_eq_string_iff, String.ofList_toList]

/-- The field that says what a text is. -/
def frontmatterField {key value : String} (isKey : IsKey key.toList)
    (quotable : ∀ c ∈ value.toList, isQuotable c) : Field where
  key := key.toList
  written := (frontmatterScalar value).toList
  style := frontmatterStyle value
  value := value.toList
  isKey := isKey
  writes := writes_frontmatterScalar quotable

/-- A text that is read from frontmatter, if only as something else. -/
structure IsRead (value : String) : Prop where
  quotable : ∀ c ∈ value.toList, isQuotable c
  reads : ∃ read, untaggedValue (frontmatterStyle value) value.toList = .ok read

theorem IsRead.of_not_bare {value : String} (quotable : ∀ c ∈ value.toList, isQuotable c)
    (not_bare : ¬ IsBareNumber value.toList) : IsRead value :=
  ⟨quotable, _, (untaggedValue_frontmatterScalar value).mpr not_bare⟩

theorem exists_entry_frontmatterField {key value : String} (isKey : IsKey key.toList)
    (isRead : IsRead value) :
    ∃ entry, (frontmatterField isKey isRead.quotable).entry = .ok entry := by
  obtain ⟨read, reads⟩ := isRead.reads
  exact ⟨_, by simp only [Field.entry, frontmatterField, reads]; rfl⟩

theorem isKey_key : IsKey "key".toList := by decide

theorem ofText_frontmatterScalar {value : String}
    (quotable : ∀ c ∈ value.toList, isQuotable c) :
    Value.ofText ("key: " ++ frontmatterScalar value) =
      (fun read => .mapping [(.string "key", read)]) <$>
        untaggedValue (frontmatterStyle value) value.toList := by
  have text : "key: " ++ frontmatterScalar value =
      String.ofList (linesOfFields [frontmatterField isKey_key quotable]) := by
    apply String.toList_inj.mp
    simp [linesOfFields, Field.line, frontmatterField]
  have key : String.ofList "key".toList = "key" := String.ofList_toList
  rw [text, ofText_fields _ _ (by simp)]
  simp only [List.mapM_cons, List.mapM_nil, Field.entry, frontmatterField, key]
  cases untaggedValue (frontmatterStyle value) value.toList <;> rfl

/-- A text that a document may hold is read back from frontmatter, unless it is a number that
frontmatter does not know. Separators of Unicode are left out. -/
theorem ofText_frontmatterScalar_iff (value : String)
    (quotable : ∀ c ∈ value.toList, isQuotable c) :
    Value.ofText ("key: " ++ frontmatterScalar value) =
        .ok (.mapping [(.string "key", .string value)]) ↔
      ¬ IsBareNumber value.toList := by
  rw [ofText_frontmatterScalar quotable, ← untaggedValue_frontmatterScalar]
  cases untaggedValue (frontmatterStyle value) value.toList <;>
    simp [Functor.map, Except.map]

/-- What has a meaning of its own in every place of a document is read back. -/
theorem ofText_indicators :
    (∀ c ∈ "#1: \"a\\b\"\n- yes".toList, isQuotable c) ∧
      Value.ofText ("key: " ++ frontmatterScalar "#1: \"a\\b\"\n- yes") =
        .ok (.mapping [(.string "key", .string "#1: \"a\\b\"\n- yes")]) := by
  have quotable : ∀ c ∈ "#1: \"a\\b\"\n- yes".toList, isQuotable c := by decide
  exact ⟨quotable, (ofText_frontmatterScalar_iff _ quotable).mpr
    (IsBareNumber.not_of_begins (by decide))⟩

/-- A hexadecimal number is read as a number, and not as the text that it was. -/
theorem ofText_hexadecimal :
    (∀ c ∈ "0x1F".toList, isAllowed c) ∧
      Value.ofText ("key: " ++ frontmatterScalar "0x1F") =
        .ok (.mapping [(.string "key", .integer 31)]) := by
  refine ⟨by decide, ?_⟩
  rw [ofText_frontmatterScalar (by decide)]
  rfl

-- A separator of Unicode ends the line of its field.
example : (Value.ofText ("key: " ++ frontmatterScalar "a\u2028b")).isOk = false := by
  decide +kernel

end Yaml

end AgentKit
