/-
# Numbers without quotes

Which plain scalars are no text. A scalar that means a number is written in decimal notation,
or in one of a few other ways: in hexadecimal, octal or binary digits, or as one of the words
for infinity and for what is not a number. Frontmatter looks for decimal notation only.
-/

import AgentKit.Proofs.Text.Members
import AgentKit.Yaml.FrontmatterScalar
import AgentKit.Yaml.Scalar
import Mathlib.Data.List.TakeWhile

namespace AgentKit

open Number

/-! ## Decimal notation -/

namespace Number

variable {cs : List Char}

theorem splitSign_of_digits (digits : cs.all isDigit) : splitSign cs = (false, cs) := by
  unfold splitSign
  split
  · simp [isDigit] at digits
  · simp [isDigit] at digits
  · rfl

theorem isSome_read_of_digits (filled : cs ≠ []) (digits : cs.all isDigit) :
    (Decimal.read cs).isSome := by
  have whole : cs.takeWhile isDigit = cs :=
    List.takeWhile_eq_self_iff.mpr (List.all_eq_true.mp digits)
  have rest : cs.dropWhile isDigit = [] :=
    List.dropWhile_eq_nil_iff.mpr (List.all_eq_true.mp digits)
  simp [Decimal.read, splitSign_of_digits digits, whole, rest, splitFraction, readExponent, filled]

/-- A plus sign in front of a notation without sign makes no difference. -/
theorem read_plus (signless : splitSign cs = (false, cs)) :
    Decimal.read ('+' :: cs) = Decimal.read cs := by
  have signed : splitSign ('+' :: cs) = (false, cs) := rfl
  simp only [Decimal.read, signless, signed]

/-- No decimal notation begins with a letter. -/
theorem read_of_isAlpha {c : Char} (letter : c.isAlpha) (rest : List Char) :
    Decimal.read (c :: rest) = none := by
  have no_digit : isDigit c = false := by
    have letters := Text.isAlpha_iff.mp letter
    have digits : isDigit c = (decide (48 ≤ c.toNat) && decide (c.toNat ≤ 57)) := rfl
    rw [digits]
    simp only [Bool.and_eq_false_iff, decide_eq_false_iff_not]
    omega
  have other : c ∉ ['-', '+', '.'] := Text.not_mem_of_holds (·.isAlpha) letter (by decide)
  simp only [List.mem_cons, List.not_mem_nil, or_false, not_or] at other
  obtain ⟨minus, plus, stop⟩ := other
  simp [Decimal.read, splitSign, splitFraction, no_digit, minus, plus, stop]

end Number

namespace Yaml

variable {cs : List Char}

theorem contains_ofList {words : List String} :
    words.contains (String.ofList cs) ↔ cs ∈ words.map String.toList := by
  rw [List.contains_iff_mem, List.mem_map]
  constructor
  · exact fun member => ⟨_, member, String.toList_ofList⟩
  · rintro ⟨word, member, rfl⟩
    rwa [String.ofList_toList]

/-! ## Integers -/

theorem isDigit_of_digitOf? {c : Char} {digit : Nat} (means : digitOf? 10 c = some digit) :
    isDigit c := by
  simp only [digitOf?] at means
  by_cases decimal : '0' ≤ c && c ≤ '9'
  · exact decimal
  · have large : 10 ≤ (if 'a' ≤ c && c ≤ 'f' then c.toNat - 'a'.toNat + 10
        else if 'A' ≤ c && c ≤ 'F' then c.toNat - 'A'.toNat + 10 else 10) := by
      split
      · omega
      · split <;> omega
    rw [if_neg decimal, if_neg (Nat.not_lt.mpr large)] at means
    contradiction

/-- A number is written by digits of its base. -/
theorem digits_of_naturalOf? {base value : Nat} (means : naturalOf? base cs = some value) :
    cs ≠ [] ∧ ∀ c ∈ cs, (digitOf? base c).isSome := by
  have all_digits : ∀ (cs : List Char) (before : Nat),
      (cs.foldlM (fun value c => (digitOf? base c).map (value * base + ·)) before).isSome →
        ∀ c ∈ cs, (digitOf? base c).isSome := by
    intro cs
    induction cs with
    | nil => simp
    | cons c cs ih =>
        intro before reads
        rw [List.foldlM_cons] at reads
        cases first : digitOf? base c with
        | none => simp [first] at reads
        | some digit =>
            rw [first] at reads
            exact List.forall_mem_cons.mpr ⟨by rw [first]; rfl, ih _ reads⟩
  unfold naturalOf? at means
  split at means
  case isTrue => contradiction
  case isFalse filled => exact ⟨by simpa using filled, all_digits cs 0 (by rw [means]; rfl)⟩

/-- The letters after a zero that say in which base the digits are. -/
def baseLetters : List (Char × Nat) := [('x', 16), ('o', 8), ('b', 2)]

/-- A text is a sign or nothing. -/
def IsPlus (sign : List Char) : Prop :=
  sign = [] ∨ sign = ['+']

/-- The notations of numbers that no decimal notation covers, without a minus sign. -/
inductive IsBareNumber : List Char → Prop
  | based {sign digits : List Char} {letter : Char} {base value : Nat} (plus : IsPlus sign)
      (known : (letter, base) ∈ baseLetters) (means : naturalOf? base digits = some value)
      (bounded : value < Nat.pow 2 128) : IsBareNumber (sign ++ '0' :: letter :: digits)
  | infinite {sign : List Char} {word : String} (plus : IsPlus sign)
      (known : word ∈ [".inf", ".Inf", ".INF"]) : IsBareNumber (sign ++ word.toList)
  | notANumber {word : String} (known : word ∈ [".nan", ".NaN", ".NAN"]) : IsBareNumber word.toList

theorem magnitudeOf?_cases {value : Nat} (means : magnitudeOf? cs = some value) :
    (∃ letter base digits, (letter, base) ∈ baseLetters ∧ cs = '0' :: letter :: digits ∧
      naturalOf? base digits = some value) ∨ (cs ≠ [] ∧ cs.all isDigit) := by
  unfold magnitudeOf? at means
  split at means
  · exact .inl ⟨_, _, _, by simp [baseLetters], rfl, means⟩
  · exact .inl ⟨_, _, _, by simp [baseLetters], rfl, means⟩
  · exact .inl ⟨_, _, _, by simp [baseLetters], rfl, means⟩
  · split at means
    · contradiction
    · obtain ⟨filled, digits⟩ := digits_of_naturalOf? means
      refine .inr ⟨filled, List.all_eq_true.mpr fun c member => ?_⟩
      obtain ⟨digit, means⟩ := Option.isSome_iff_exists.mp (digits c member)
      exact isDigit_of_digitOf? means

/-- An integer without minus sign is in decimal notation, or a number in another base. -/
theorem integerOf?_cases {value : Int} (means : integerOf? cs = some value)
    (unsigned : cs.head? ≠ some '-') (bounded : isIntegerNotation value) :
    (Decimal.read cs).isSome ∨ IsBareNumber cs := by
  have natural : ∃ number : Nat, unsignedOf? cs = some number ∧ number < Nat.pow 2 128 := by
    unfold integerOf? at means
    split at means
    · exact absurd rfl unsigned
    · obtain ⟨number, reads, rfl⟩ := Option.map_eq_some_iff.mp means
      refine ⟨number, reads, ?_⟩
      simp only [isIntegerNotation, Bool.and_eq_true, decide_eq_true_eq] at bounded
      exact Int.ofNat_lt.mp bounded.2
  obtain ⟨number, reads, small⟩ := natural
  unfold unsignedOf? at reads
  split at reads
  case h_1 rest =>
    rcases magnitudeOf?_cases reads with ⟨letter, base, digits, known, rfl, writes⟩ | ⟨filled, digits⟩
    · exact .inr (.based (.inr rfl) known writes small)
    · rw [read_plus (splitSign_of_digits digits)]
      exact .inl (isSome_read_of_digits filled digits)
  case h_2 =>
    rcases magnitudeOf?_cases reads with ⟨letter, base, digits, known, rfl, writes⟩ | ⟨filled, digits⟩
    · exact .inr (.based (.inl rfl) known writes small)
    · exact .inl (isSome_read_of_digits filled digits)

/-! ## Numbers with a fraction -/

/-- What is left without a plus sign has no sign in front, unless it is a minus sign that was
there before. -/
theorem withoutPlus?_cases {rest : List Char} (taken : withoutPlus? cs = some rest) :
    cs = rest ∨ (cs = '+' :: rest ∧ splitSign rest = (false, rest)) := by
  unfold withoutPlus? at taken
  split at taken
  · contradiction
  · contradiction
  · obtain rfl := Option.some.inj taken
    refine .inr ⟨rfl, ?_⟩
    unfold splitSign
    split <;> simp_all
  · exact .inl (Option.some.inj taken)

/-- A number without minus sign that is no integer is in decimal notation, or one of the words
that are no numbers there. -/
theorem floatOf?_cases {value : Float} (means : floatOf? cs = some value)
    (unsigned : cs.head? ≠ some '-') : (Decimal.read cs).isSome ∨ IsBareNumber cs := by
  obtain ⟨rest, taken, means⟩ := Option.bind_eq_some_iff.mp means
  split at means
  case isTrue infinite =>
    obtain ⟨word, known, rfl⟩ := List.mem_map.mp (contains_ofList.mp infinite)
    rcases withoutPlus?_cases taken with rfl | ⟨rfl, -⟩
    · exact .inr (.infinite (.inl rfl) known)
    · exact .inr (.infinite (.inr rfl) known)
  case isFalse =>
    split at means
    case isTrue negative =>
      have signed : ∀ text ∈ ["-.inf", "-.Inf", "-.INF"].map String.toList,
          text.head? = some '-' := by decide
      exact absurd (signed cs (contains_ofList.mp negative)) unsigned
    case isFalse =>
      split at means
      case isTrue odd =>
        obtain ⟨word, known, rfl⟩ := List.mem_map.mp (contains_ofList.mp odd)
        exact .inr (.notANumber known)
      case isFalse =>
        obtain ⟨decimal, reads, -⟩ := Option.bind_eq_some_iff.mp means
        rcases withoutPlus?_cases taken with rfl | ⟨rfl, signless⟩
        · rw [reads]
          exact .inl rfl
        · rw [read_plus signless, reads]
          exact .inl rfl

/-! ## Plain scalars -/

/-- A plain scalar that is no text and does not begin with a hyphen. -/
theorem meaningOf_cases (no_text : meaningOf cs ≠ .text) (unsigned : cs.head? ≠ some '-') :
    cs = [] ∨ isNullWord cs ∨ (boolOf? cs).isSome ∨ (Decimal.read cs).isSome ∨
      IsBareNumber cs := by
  have beyond : meaningBeyondIntegers cs ≠ .text → (Decimal.read cs).isSome ∨ IsBareNumber cs := by
    intro no_text
    unfold meaningBeyondIntegers at no_text
    split at no_text
    · contradiction
    · split at no_text
      case h_1 value means => exact floatOf?_cases means unsigned
      case h_2 => contradiction
  unfold meaningOf at no_text
  split at no_text
  case isTrue null =>
    rcases Bool.or_eq_true _ _ ▸ null with empty | word
    · exact .inl (List.isEmpty_iff.mp empty)
    · exact .inr (.inl word)
  case isFalse =>
    split at no_text
    case h_1 value means => exact .inr (.inr (.inl (by rw [means]; rfl)))
    case h_2 =>
      split at no_text
      case h_1 value means =>
        split at no_text
        case isTrue bounded => exact .inr (.inr (.inr (integerOf?_cases means unsigned bounded)))
        case isFalse => exact .inr (.inr (.inr (beyond no_text)))
      case h_2 => exact .inr (.inr (.inr (beyond no_text)))

/-- A text begins like a number that is no decimal number. -/
def BeginsBare (cs : List Char) : Prop :=
  ∃ c ∈ ['0', '+', '.'], cs.head? = some c

/-- No word of another kind begins like such a number. -/
theorem BeginsBare.not_contains (begins : BeginsBare cs) {words : List String}
    (others : ∀ text ∈ words.map String.toList, ∀ c ∈ ['0', '+', '.'], text.head? ≠ some c) :
    words.contains (String.ofList cs) = false := by
  obtain ⟨c, known, first⟩ := begins
  exact Bool.eq_false_iff.mpr fun word => others cs (contains_ofList.mp word) c known first

namespace IsBareNumber

theorem begins (bare : IsBareNumber cs) : BeginsBare cs := by
  cases bare with
  | based plus known means bounded =>
      rcases plus with rfl | rfl
      · exact ⟨'0', by decide, rfl⟩
      · exact ⟨'+', by decide, rfl⟩
  | infinite plus known =>
      rcases plus with rfl | rfl
      · have words : ∀ word ∈ [".inf", ".Inf", ".INF"], word.toList.head? = some '.' := by decide
        exact ⟨'.', by decide, words _ known⟩
      · exact ⟨'+', by decide, rfl⟩
  | notANumber known =>
      have words : ∀ word ∈ [".nan", ".NaN", ".NAN"], word.toList.head? = some '.' := by decide
      exact ⟨'.', by decide, words _ known⟩

theorem not_of_begins (other : ∀ c ∈ ['0', '+', '.'], cs.head? ≠ some c) : ¬ IsBareNumber cs :=
  fun bare => bare.begins.elim fun c begins => other c begins.1 begins.2

/-- Such a number means what it writes, and not the text. -/
theorem meaningOf_ne_text (bare : IsBareNumber cs) : meaningOf cs ≠ .text := by
  have null : isNullWord cs = false := bare.begins.not_contains (by decide)
  have truth : boolOf? cs = none := by
    unfold boolOf?
    rw [bare.begins.not_contains (by decide), bare.begins.not_contains (by decide)]
    rfl
  cases bare with
  | @based sign digits letter base value plus known means bounded =>
      have integer : integerOf? (sign ++ '0' :: letter :: digits) = some (value : Int) := by
        simp only [baseLetters, List.mem_cons, Prod.mk.injEq, List.not_mem_nil, or_false] at known
        rcases plus with rfl | rfl <;>
          rcases known with ⟨rfl, rfl⟩ | ⟨rfl, rfl⟩ | ⟨rfl, rfl⟩ <;>
            simp [integerOf?, unsignedOf?, magnitudeOf?, means]
      have in_range : isIntegerNotation (value : Int) := by
        simp only [isIntegerNotation, Bool.and_eq_true, decide_eq_true_eq]
        exact ⟨Int.le_trans (Int.neg_nonpos_of_nonneg (Int.natCast_nonneg _))
          (Int.natCast_nonneg _), Int.ofNat_lt.mpr bounded⟩
      have filled : (sign ++ '0' :: letter :: digits).isEmpty = false := by simp
      simp [meaningOf, null, truth, integer, in_range, filled]
  | infinite plus known =>
      have words : ∀ word ∈ [".inf", ".Inf", ".INF"], ∀ sign ∈ [[], ['+']],
          meaningOf (sign ++ word.toList) ≠ .text := by decide
      exact words _ known _ (by simpa [IsPlus] using plus)
  | notANumber known =>
      have words : ∀ word ∈ [".nan", ".NaN", ".NAN"], meaningOf word.toList ≠ .text := by decide
      exact words _ known

end IsBareNumber

/-- What begins with a letter is a text, unless it is a word for null or a truth value. -/
theorem meaningOf_of_isAlpha {c : Char} {rest : List Char} (letter : c.isAlpha)
    (no_null : isNullWord (c :: rest) = false) (no_truth : boolOf? (c :: rest) = none) :
    meaningOf (c :: rest) = .text := by
  have other : ∀ d ∈ ['0', '+', '.'] ++ ['-'], (c :: rest).head? ≠ some d := by
    intro d member same
    obtain rfl := Option.some.inj same
    exact Text.not_mem_of_holds (·.isAlpha) letter (by decide) member
  by_contra no_text
  rcases meaningOf_cases no_text (other '-' (by decide)) with empty | null | truth | reads | bare
  · contradiction
  · rw [no_null] at null
    contradiction
  · rw [no_truth] at truth
    contradiction
  · rw [read_of_isAlpha letter] at reads
    contradiction
  · exact IsBareNumber.not_of_begins
      (fun d member => other d (List.mem_append_left ['-'] member)) bare

end Yaml

end AgentKit
