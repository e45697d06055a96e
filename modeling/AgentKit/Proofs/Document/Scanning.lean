/-
# Scanning quoted text

A quoted text is read from left to right. A backslash and the letter behind it are one sign and
stand for one character; any other character is a sign by itself. The text ends where as many
quotes come together as opened it, one or three, each of them a sign by itself.

No format is meant in particular: a character is refused nowhere, and a line break is a character
like any other. What holds here therefore holds of every text, also of one that no reader of the
formats would take.

Escaping writes signs that stand for the text. On one line no quote is a sign by itself, so the
text ends at its closing quote. On several lines one or two quotes in a row may be, so there the
last character must be another one for the text to end at its closing quotes. Documents end in
a line feed.
-/

import AgentKit.Document
import AgentKit.Proofs.Document.Escaping
import AgentKit.Proofs.Toml.Escaping
import Mathlib.Data.List.Infix

namespace AgentKit.Document

/-! ## Signs -/

/-- A sign of a quoted text: a character by itself, or a backslash and the letter for a
character. -/
inductive Sign where
  | plain (c : Char)
  | escaped (c : Char)
  deriving DecidableEq, Repr

/-- The character that a sign stands for. -/
def Sign.meaning : Sign → Char
  | .plain c => c
  | .escaped c => c

/-- The character that a letter stands for behind a backslash. The table has the characters that
are escaped, each with its letter. -/
def meantBy? (table : List (Char × Char)) (letter : Char) : Option Char :=
  (table.find? (·.2 = letter)).map Prod.fst

/-- The signs of a text, from left to right. There are none if a backslash stands before a letter
without a meaning or at the end. -/
def signs? (table : List (Char × Char)) : List Char → Option (List Sign)
  | [] => some []
  | ['\\'] => none
  | '\\' :: letter :: cs =>
    (meantBy? table letter).bind fun c => (signs? table cs).map (.escaped c :: ·)
  | c :: cs => (signs? table cs).map (.plain c :: ·)

/-- Read a quoted text up to the first place where so many quotes come together, none of them
behind a backslash. The text that was read stands before what is left. -/
def readQuoted? (table : List (Char × Char)) (quotes : Nat) :
    List Char → Option (List Char × List Char)
  | [] => none
  | ['\\'] => none
  | '\\' :: letter :: cs =>
    (meantBy? table letter).bind fun c =>
      (readQuoted? table quotes cs).map fun (text, rest) => (c :: text, rest)
  | c :: cs =>
    if List.replicate quotes '"' <+: c :: cs then some ([], (c :: cs).drop quotes)
    else (readQuoted? table quotes cs).map fun (text, rest) => (c :: text, rest)

variable {table : List (Char × Char)} {quotes : Nat} {c letter : Char}
  {cs written text : List Char} {signs : List Sign}

theorem signs?_of_ne (other : c ≠ '\\') (cs : List Char) :
    signs? table (c :: cs) = (signs? table cs).map (.plain c :: ·) := by
  rw [signs?] <;> simp [other]

theorem readQuoted?_of_ne (other : c ≠ '\\') (cs : List Char) :
    readQuoted? table quotes (c :: cs) =
      if List.replicate quotes '"' <+: c :: cs then some ([], (c :: cs).drop quotes)
      else (readQuoted? table quotes cs).map fun (text, rest) => (c :: text, rest) := by
  rw [readQuoted?] <;> simp [other]

/-- Quotes at the start of a text are signs by themselves. -/
theorem signs?_replicate_append (quotes : Nat) (cs : List Char) :
    signs? table (List.replicate quotes '"' ++ cs) =
      (signs? table cs).map (List.replicate quotes (.plain '"') ++ ·) := by
  induction quotes with
  | zero => simp
  | succ quotes ih =>
      rw [List.replicate_succ, List.cons_append, signs?_of_ne (by decide), ih, Option.map_map]
      rfl

/-! ## Written texts -/

/-- A written text has the signs for the characters of another text, and nowhere in it come as many
quotes together by themselves as close a text. -/
structure Scans (table : List (Char × Char)) (quotes : Nat) (written text : List Char)
    (signs : List Sign) : Prop where
  scanned : signs? table written = some signs
  meaning : signs.map Sign.meaning = text
  apart : ¬ List.replicate quotes (.plain '"') <:+: signs

namespace Scans

theorem quotes_ne_zero (scans : Scans table quotes written text signs) : quotes ≠ 0 := by
  rintro rfl
  exact scans.apart List.nil_prefix.isInfix

/-- One more character by itself. -/
theorem plain (scans : Scans table quotes written text signs) (other : c ≠ '\\')
    (apart : ¬ List.replicate quotes (.plain '"') <+: .plain c :: signs) :
    Scans table quotes (c :: written) (c :: text) (.plain c :: signs) where
  scanned := by rw [signs?_of_ne other, scans.scanned, Option.map_some]
  meaning := by rw [List.map_cons, scans.meaning, Sign.meaning]
  apart := by
    rw [List.infix_cons_iff, not_or]
    exact ⟨apart, scans.apart⟩

/-- One more character behind a backslash. -/
theorem escaped (scans : Scans table quotes written text signs)
    (known : meantBy? table letter = some c) :
    Scans table quotes ('\\' :: letter :: written) (c :: text) (.escaped c :: signs) where
  scanned := by rw [signs?, known, Option.bind_some, scans.scanned, Option.map_some]
  meaning := by rw [List.map_cons, scans.meaning, Sign.meaning]
  apart := by
    obtain ⟨more, rfl⟩ := Nat.exists_eq_succ_of_ne_zero scans.quotes_ne_zero
    rw [List.infix_cons_iff, not_or]
    exact ⟨by simp [List.replicate_succ], scans.apart⟩

/-- Behind a first sign that is escaped, the rest of a text is written. -/
theorem of_escaped (scans : Scans table quotes ('\\' :: letter :: written) text signs) :
    ∃ c others behind, meantBy? table letter = some c ∧ text = c :: others ∧
      signs = .escaped c :: behind ∧ Scans table quotes written others behind := by
  obtain ⟨c, known, more⟩ := Option.bind_eq_some_iff.mp scans.scanned
  obtain ⟨behind, scanned, rfl⟩ := Option.map_eq_some_iff.mp more
  have meaning := scans.meaning
  rw [List.map_cons] at meaning
  exact ⟨c, _, behind, known, meaning.symm, rfl, scanned, rfl, mt List.infix_cons scans.apart⟩

/-- Behind a first sign that is a character by itself, the rest of a text is written. -/
theorem of_plain (scans : Scans table quotes (c :: written) text signs) (other : c ≠ '\\') :
    ∃ others behind, text = c :: others ∧ signs = .plain c :: behind ∧
      Scans table quotes written others behind := by
  have whole := scans.scanned
  rw [signs?_of_ne other] at whole
  obtain ⟨behind, scanned, rfl⟩ := Option.map_eq_some_iff.mp whole
  have meaning := scans.meaning
  rw [List.map_cons] at meaning
  exact ⟨_, behind, meaning.symm, rfl, scanned, rfl, mt List.infix_cons scans.apart⟩

/-- Before its end, a written text is not closed by the quotes in it, not even together with quotes
that follow. -/
theorem not_isPrefix (scans : Scans table quotes (c :: cs) text signs)
    (ended : signs.getLast? ≠ some (.plain '"')) (rest : List Char) :
    ¬ List.replicate quotes '"' <+: c :: cs ++ rest := by
  intro begins
  rcases List.prefix_or_prefix_of_prefix begins (List.prefix_append _ _) with within | beyond
  · obtain ⟨behind, whole⟩ := within
    have scanned := scans.scanned
    rw [← whole, signs?_replicate_append] at scanned
    obtain ⟨others, -, rfl⟩ := Option.map_eq_some_iff.mp scanned
    exact scans.apart (List.prefix_append _ _).isInfix
  · -- All that is left are quotes, so the last sign is one.
    obtain ⟨-, all⟩ := List.prefix_replicate_iff.mp beyond
    have scanned := scans.scanned
    rw [all, ← List.append_nil (List.replicate _ _), signs?_replicate_append] at scanned
    obtain rfl := Option.some.inj scanned
    exact ended (by simp [List.getLast?_replicate])

/-- A written text whose last sign is no quote is read up to the quotes behind it. -/
theorem readQuoted?_append (scans : Scans table quotes written text signs)
    (ended : signs.getLast? ≠ some (.plain '"')) (rest : List Char) :
    readQuoted? table quotes (written ++ (List.replicate quotes '"' ++ rest)) =
      some (text, rest) := by
  have ended_behind {sign : Sign} {behind : List Sign}
      (ended : (sign :: behind).getLast? ≠ some (.plain '"')) :
      behind.getLast? ≠ some (.plain '"') := by
    intro last
    exact ended (by rw [List.getLast?_cons, last, Option.getD_some])
  induction written using signs?.induct generalizing text signs with
  | case1 =>
      obtain ⟨more, rfl⟩ := Nat.exists_eq_succ_of_ne_zero scans.quotes_ne_zero
      obtain rfl := Option.some.inj scans.scanned
      obtain rfl := scans.meaning
      rw [List.nil_append, List.replicate_succ, List.cons_append, readQuoted?_of_ne (by decide),
        ← List.cons_append, ← List.replicate_succ, if_pos (List.prefix_append _ _)]
      simp
  | case2 => exact absurd scans.scanned (by simp [signs?])
  | case3 letter written ih =>
      obtain ⟨c, others, behind, known, rfl, rfl, scans'⟩ := scans.of_escaped
      rw [List.cons_append, List.cons_append, readQuoted?, known, Option.bind_some,
        ih scans' (ended_behind ended), Option.map_some]
  | case4 c written not_last not_before ih =>
      have other : c ≠ '\\' := by
        rintro rfl
        cases written with
        | nil => exact not_last rfl rfl
        | cons letter written => exact not_before letter written rfl rfl
      have open_still := scans.not_isPrefix ended (List.replicate quotes '"' ++ rest)
      obtain ⟨others, behind, rfl, rfl, scans'⟩ := scans.of_plain other
      rw [List.cons_append] at open_still ⊢
      rw [readQuoted?_of_ne other, if_neg open_still, ih scans' (ended_behind ended),
        Option.map_some]

/-- A text that ends in no quote may be followed by its closing quotes. -/
theorem readQuoted?_of_getLast? (scans : Scans table quotes written text signs)
    (ended : text.getLast? ≠ some '"') (rest : List Char) :
    readQuoted? table quotes (written ++ (List.replicate quotes '"' ++ rest)) =
      some (text, rest) := by
  apply scans.readQuoted?_append
  intro last
  apply ended
  rw [← scans.meaning, List.getLast?_map, last]
  rfl

/-- One quote closes a text on one line, so the last sign of it is none. -/
theorem readQuoted?_single (scans : Scans table 1 written text signs) (rest : List Char) :
    readQuoted? table 1 (written ++ '"' :: rest) = some (text, rest) := by
  apply scans.readQuoted?_append
  intro last
  have inside : Sign.plain '"' ∈ signs := List.mem_of_getLast? last
  exact scans.apart ((List.singleton_infix_iff _ _).mpr inside)

end Scans

/-! ## Texts on one line -/

theorem meantBy?_of_mem (known : (c, letter) ∈ escapes) : meantBy? escapes letter = some c := by
  have told : ∀ pair ∈ escapes, meantBy? escapes pair.2 = some pair.1 := by decide
  exact told (c, letter) known

/-- An escaped text has a sign for each character, and a quote is never one by itself. -/
theorem exists_scans_escape (cs : List Char) : ∃ signs, Scans escapes 1 (escape cs) cs signs := by
  induction cs with
  | nil => exact ⟨[], rfl, rfl, by simp⟩
  | cons c cs ih =>
      obtain ⟨signs, scans⟩ := ih
      rw [escape_cons]
      rcases escapeChar_cases c with ⟨letter, known, form⟩ | ⟨plain, form⟩
      · rw [form]
        exact ⟨_, scans.escaped (meantBy?_of_mem known)⟩
      · rw [form]
        have backslash : c ≠ '\\' := plain ('\\', '\\') (by decide)
        have quote : c ≠ '"' := plain ('"', '"') (by decide)
        exact ⟨_, scans.plain backslash (by simpa using quote.symm)⟩

theorem escaped_append (first second : String) :
    escaped (first ++ second) = escaped first ++ escaped second := by
  rw [escaped, String.toList_append, escape, List.flatMap_append, String.ofList_append]
  rfl

/-- A text between quotes on one line is read back up to the closing quote, whatever follows it.
The escaped text has no line break and no tab; different texts are escaped differently, and what
stands side by side is escaped side by side. -/
theorem escaped_exact :
    (∀ text rest : String, readQuoted? escapes 1 (escaped text ++ "\"" ++ rest).toList =
      some (text.toList, rest.toList)) ∧
    (∀ text : String, '\n' ∉ (escaped text).toList ∧ '\r' ∉ (escaped text).toList ∧
      '\t' ∉ (escaped text).toList) ∧
    Function.Injective escaped ∧
    ∀ first second : String, escaped (first ++ second) = escaped first ++ escaped second := by
  have characters (text : String) : (escaped text).toList = escape text.toList :=
    String.toList_ofList
  refine ⟨?_, ?_, escaped_injective, escaped_append⟩
  · intro text rest
    obtain ⟨signs, scans⟩ := exists_scans_escape text.toList
    have whole : (escaped text ++ "\"" ++ rest).toList = escape text.toList ++ '"' :: rest.toList := by
      simp [characters]
    rw [whole, scans.readQuoted?_single]
  · intro text
    rw [characters]
    refine ⟨?_, ?_, ?_⟩ <;> exact fun inside => notMem_of_mem_escape inside (by decide)

/-! ## Texts on several lines -/

/-- The characters that are escaped between three quotes, each by itself. -/
def multilineEscapes : List (Char × Char) :=
  [('\\', '\\'), ('"', '"')]

/-- A text that is escaped for several lines has a sign for each character, and three quotes in a
row are never signs by themselves. -/
theorem exists_scans_escapeRuns (cs : List Char) :
    ∃ signs, Scans multilineEscapes 3 (escapeRuns cs) cs signs := by
  fun_induction escapeRuns cs with
  | case1 cs ih =>
      obtain ⟨signs, scans⟩ := ih
      have third := scans.escaped (show meantBy? multilineEscapes '"' = some '"' from rfl)
      have second := third.plain (show '"' ≠ '\\' by decide) (by simp)
      exact ⟨_, second.plain (show '"' ≠ '\\' by decide) (by simp)⟩
  | case2 cs ih =>
      obtain ⟨signs, scans⟩ := ih
      exact ⟨_, scans.escaped rfl⟩
  | case3 c cs not_three not_backslash ih =>
      obtain ⟨signs, scans⟩ := ih
      refine ⟨_, scans.plain (fun same => not_backslash same) fun begins => ?_⟩
      -- Three quotes among the signs would be three quotes in the text.
      have inside := begins.map Sign.meaning
      rw [List.map_cons, scans.meaning] at inside
      obtain ⟨rest, whole⟩ := inside
      cases whole
      exact not_three rest rfl rfl
  | case4 => exact ⟨[], rfl, rfl, by simp⟩

/-- A text between three quotes has a sign for each character, and three quotes in a row are never
signs by themselves. If it ends in a line feed, it is read back up to the closing quotes, whatever
follows them. A reader of TOML, for which a fourth quote belongs to the text, stops at the same
place if no quote follows, with what the text means there. Documents end in a line feed. -/
theorem escapeMultiline_exact :
    (∀ text : List Char, ∃ signs,
      Scans multilineEscapes 3 (escapeMultiline text) text signs) ∧
    (∀ text rest : List Char, text.getLast? = some '\n' →
      readQuoted? multilineEscapes 3 (escapeMultiline text ++ '"' :: '"' :: '"' :: rest) =
        some (text, rest)) ∧
    (∀ (keepsReturn : Bool) (text rest : List Char), text.getLast? = some '\n' →
      rest.head? ≠ some '"' →
      Toml.readString (.lines keepsReturn) .text
          (escapeMultiline text ++ '"' :: '"' :: '"' :: rest) =
        ((Toml.Form.lines keepsReturn).meaningOf? text).map (·, rest)) ∧
    ∀ document : Document, document.render.toList.getLast? = some '\n' := by
  have scanned (text : List Char) : ∃ signs,
      Scans multilineEscapes 3 (escapeMultiline text) text signs := by
    rw [escapeMultiline_eq_escapeRuns]
    exact exists_scans_escapeRuns text
  refine ⟨scanned, ?_, ?_, ?_⟩
  · intro text rest ended
    obtain ⟨signs, scans⟩ := scanned text
    exact scans.readQuoted?_of_getLast? (by simp [ended]) rest
  · intro keepsReturn text rest ended behind
    obtain ⟨body, rfl⟩ := List.getLast?_eq_some_iff.mp ended
    rw [escapeMultiline_eq_escapeRuns, escapeRuns_concat, List.append_assoc, List.singleton_append,
      Toml.readString_escapeRuns keepsReturn body behind]
  · intro document
    rw [render, String.toList_ofList, List.getLast?_concat]

/-- Five quotes, a backslash and a sixth quote. -/
def quotesLine : List Char :=
  "\"\"\"\"\"\\\"\n".toList

/-- Of the five quotes the third is escaped, and the others do not close the text, neither do they
together with those that do. -/
theorem escapeMultiline_exact_quotesLine :
    escapeMultiline quotesLine = "\"\"\\\"\"\"\\\\\"\n".toList ∧
      readQuoted? multilineEscapes 3 (escapeMultiline quotesLine ++ '"' :: '"' :: '"' :: ['"']) =
        some (quotesLine, ['"']) ∧
      Toml.readString (.lines true) .text
          (escapeMultiline quotesLine ++ '"' :: '"' :: '"' :: ['\n']) = some (quotesLine, ['\n']) := by
  obtain ⟨-, reads, readsToml, -⟩ := escapeMultiline_exact
  have ended : quotesLine.getLast? = some '\n' := by decide +kernel
  refine ⟨by decide +kernel, reads quotesLine ['"'] ended, ?_⟩
  exact (readsToml true quotesLine ['\n'] ended (by decide)).trans (by decide +kernel)

end AgentKit.Document
