/-
# Escaped text in TOML strings

What the two ways of escaping write is read back by the TOML reader, whatever follows the
closing quote. In a string on one line, that holds for every text without control characters
other than line breaks and tabs: no other control character is escaped. In a string on several
lines line breaks are not escaped either, so there a carriage return must belong to a line
break that the reader keeps.
-/

import AgentKit.Document.Quoted
import AgentKit.Proofs.Text.Replacing
import AgentKit.Proofs.Toml.Reading

namespace AgentKit

open Document (escape escapeChar escapeMultiline doubleBackslashes)

namespace Document

/-- Escaping between triple quotes, in one pass: of three adjacent quotes the last one is
escaped, and so is every backslash. -/
def escapeRuns : List Char → List Char
  | '"' :: '"' :: '"' :: cs => '"' :: '"' :: '\\' :: '"' :: escapeRuns cs
  | '\\' :: cs => '\\' :: '\\' :: escapeRuns cs
  | c :: cs => c :: escapeRuns cs
  | [] => []

theorem doubleBackslashes_of_ne {c : Char} (other : c ≠ '\\') (cs : List Char) :
    doubleBackslashes (c :: cs) = c :: doubleBackslashes cs :=
  Text.replaceAll_of_not_isPrefix (by simpa using other.symm) _

theorem doubleBackslashes_backslash (cs : List Char) :
    doubleBackslashes ('\\' :: cs) = '\\' :: '\\' :: doubleBackslashes cs :=
  Text.replaceAll_append (show ['\\'] ≠ [] by simp) _ cs

/-- Doubling backslashes neither makes nor removes a quote at the start of a text. -/
theorem quotes_isPrefix_doubleBackslashes (quotes : Nat) (cs : List Char) :
    List.replicate quotes '"' <+: doubleBackslashes cs ↔ List.replicate quotes '"' <+: cs := by
  induction quotes generalizing cs with
  | zero => simp
  | succ quotes ih =>
      cases cs with
      | nil => rfl
      | cons c cs =>
          by_cases backslash : c = '\\'
          · rw [backslash, doubleBackslashes_backslash, List.replicate_succ]
            simp
          · rw [doubleBackslashes_of_ne backslash, List.replicate_succ, List.cons_prefix_cons,
              List.cons_prefix_cons, ih]

/-- The two replacements, one after the other, do what the one pass does. -/
theorem escapeMultiline_eq_escapeRuns (cs : List Char) : escapeMultiline cs = escapeRuns cs := by
  rw [escapeMultiline]
  fun_induction escapeRuns cs with
  | case1 cs ih =>
      rw [doubleBackslashes_of_ne (by decide), doubleBackslashes_of_ne (by decide),
        doubleBackslashes_of_ne (by decide)]
      exact (Text.replaceAll_append (show ['"', '"', '"'] ≠ [] by simp) _ _).trans
        (congrArg _ ih)
  | case2 cs ih =>
      rw [doubleBackslashes_backslash, Text.replaceAll_of_not_isPrefix (by simp),
        Text.replaceAll_of_not_isPrefix (by simp), ih]
  | case3 c cs not_three not_backslash ih =>
      have other : c ≠ '\\' := fun same => not_backslash same
      rw [doubleBackslashes_of_ne other, Text.replaceAll_of_not_isPrefix ?_, ih]
      rw [← doubleBackslashes_of_ne other]
      intro begins
      obtain ⟨rest, whole⟩ := (quotes_isPrefix_doubleBackslashes 3 (c :: cs)).mp begins
      cases whole
      exact not_three rest rfl rfl
  | case4 => rfl

/-- A line feed at the end of a text is not escaped. -/
theorem escapeRuns_concat (cs : List Char) :
    escapeRuns (cs ++ ['\n']) = escapeRuns cs ++ ['\n'] := by
  fun_induction escapeRuns cs with
  | case1 cs ih => simp [escapeRuns, ih]
  | case2 cs ih => simp [escapeRuns, ih]
  | case3 c cs not_three not_backslash ih =>
      rw [List.cons_append, List.cons_append, ← ih, escapeRuns]
      · intro rest quote quotes
        -- The line feed is none of the three quotes.
        obtain ⟨tail, rfl⟩ : List.replicate 2 '"' <+: cs := by
          cases cs with
          | nil => cases quotes
          | cons d cs =>
              cases cs with
              | nil => cases quotes
              | cons e cs =>
                  cases quotes
                  exact ⟨cs, rfl⟩
        exact not_three tail quote rfl
      · exact not_backslash
  | case4 => rfl

end Document

namespace Toml

/-! ## Steps of the reader -/

section Steps

variable {form : Form} {c meant : Char} {rest : List Char}

/-- A backslash and a character that stand for a character. -/
theorem readString_escaped (known : escapeOf? c = some (.char meant)) (solid : isGap c = false)
    (rest : List Char) :
    readString form .text ('\\' :: c :: rest) = (readString form .text rest).prepend [meant] := by
  have mode : form.modeAt .escape c = .escape := by
    cases form <;> simp [Form.modeAt, solid]
  have first : readString form .text ('\\' :: c :: rest) = readString form .escape (c :: rest) := by
    cases form <;> simp [readString, Form.modeAt]
  rw [first, readString, mode]
  simp only [known]

/-- A character other than a quote and a backslash. -/
theorem readString_other (not_quote : c ≠ '"') (not_backslash : c ≠ '\\') (rest : List Char) :
    readString form .text (c :: rest) =
      (form.meaning? c rest).elim none fun text => (readString form .text rest).prepend text := by
  have mode : form.modeAt .text c = .text := by
    cases form <;> rfl
  rw [readString, mode]
  simp only [not_quote, not_backslash, if_false]
  cases form.meaning? c rest <;> rfl

end Steps

/-! ## Strings on one line -/

/-- No control character stands in a text, except for tabs and line breaks. -/
def IsWritable (cs : List Char) : Prop :=
  ∀ c ∈ cs, isControl c → c = '\n' ∨ c = '\r'

instance : DecidablePred IsWritable :=
  fun _ => inferInstanceAs (Decidable (∀ _ ∈ _, _))

theorem isWritable_cons {c : Char} {cs : List Char} :
    IsWritable (c :: cs) ↔ (isControl c → c = '\n' ∨ c = '\r') ∧ IsWritable cs :=
  List.forall_mem_cons

/-- An escaped character is read back, unless it is a control character that is not escaped. -/
theorem readString_escapeChar (c : Char) (rest : List Char) :
    readString .oneLine .text (escapeChar c ++ rest) =
      if isControl c → c = '\n' ∨ c = '\r' then (readString .oneLine .text rest).prepend [c]
      else none := by
  unfold escapeChar
  split
  case h_1 => exact readString_escaped rfl rfl rest
  case h_2 => exact readString_escaped rfl rfl rest
  case h_3 => exact readString_escaped rfl rfl rest
  case h_4 => exact readString_escaped rfl rfl rest
  case h_5 => exact readString_escaped rfl rfl rest
  case h_6 not_backslash not_quote not_feed not_return _ =>
    have raw : ¬ (c = '\n' ∨ c = '\r') := fun either => either.elim not_feed not_return
    rw [List.singleton_append, readString_other not_quote not_backslash, Form.meaning?]
    by_cases control : isControl c <;> simp [control, raw]

/-- An escaped text up to a quote is read back, whatever follows the quote. -/
theorem readString_escape (cs rest : List Char) :
    readString .oneLine .text (escape cs ++ '"' :: rest) =
      if IsWritable cs then some (cs, rest) else none := by
  induction cs with
  | nil => simp [escape, readString, Form.modeAt, Form.close, IsWritable]
  | cons c cs ih =>
      rw [escape, List.flatMap_cons, List.append_assoc, readString_escapeChar, ← escape, ih]
      by_cases proper : isControl c → c = '\n' ∨ c = '\r'
      · by_cases others : IsWritable cs
        · rw [if_pos proper, if_pos others, if_pos (isWritable_cons.mpr ⟨proper, others⟩)]
          rfl
        · rw [if_pos proper, if_neg others, if_neg fun all => others (isWritable_cons.mp all).2]
          rfl
      · rw [if_neg proper, if_neg fun all => proper (isWritable_cons.mp all).1]

/-! ## Strings on several lines -/

namespace Form

/-- What a text stands for in which nothing is escaped, quotes and backslashes included. -/
def meaningOf? (form : Form) : List Char → Option (List Char)
  | [] => some []
  | c :: rest => (form.meaning? c rest).bind fun text => (form.meaningOf? rest).map (text ++ ·)

variable {form : Form} {c : Char} {rest other : List Char}

/-- Of what is left, the meaning of a character depends on the next character alone. -/
theorem meaning?_congr (same : rest.head? = other.head?) :
    form.meaning? c rest = form.meaning? c other := by
  unfold meaning?
  rw [same]

theorem meaningOf?_of_verbatim (verbatim : form.meaning? c rest = some [c]) :
    form.meaningOf? (c :: rest) = (form.meaningOf? rest).map ([c] ++ ·) := by
  rw [meaningOf?, verbatim, Option.bind_some]

end Form

theorem Reading.prepend_map (before rest : List Char) (found : Option (List Char)) :
    Reading.prepend before (found.map (·, rest)) = (found.map (before ++ ·)).map (·, rest) := by
  cases found <;> rfl

/-- A quote that is not followed by two others belongs to the text. -/
theorem readString_quote {keepsReturn : Bool} {rest : List Char}
    (more : ¬ List.replicate 2 '"' <+: rest) :
    readString (.lines keepsReturn) .text ('"' :: rest) =
      (readString (.lines keepsReturn) .text rest).prepend ['"'] := by
  have inside : (Form.lines keepsReturn).close rest = none := by
    unfold Form.close
    split <;> simp_all
  rw [readString]
  simp only [Form.modeAt, if_true, inside]

/-- Three quotes end a string, unless a fourth one follows. -/
theorem readString_closing (keepsReturn : Bool) {rest : List Char}
    (ended : rest.head? ≠ some '"') :
    readString (.lines keepsReturn) .text ('"' :: '"' :: '"' :: rest) = some ([], rest) := by
  have last : (Form.lines keepsReturn).close ('"' :: '"' :: rest) = some ([], rest) := by
    cases rest with
    | nil => rfl
    | cons c rest =>
        have other : c ≠ '"' := by simpa using ended
        unfold Form.close
        split <;> simp_all
  rw [readString]
  simp only [Form.modeAt, if_true, last]

theorem head?_escapeRuns (cs : List Char) : (Document.escapeRuns cs).head? = cs.head? := by
  fun_cases Document.escapeRuns cs <;> rfl

/-- Escaping makes no run of quotes longer. -/
theorem isPrefix_of_escapeRuns {quotes : Nat} {cs rest : List Char}
    (begins : List.replicate quotes '"' <+: Document.escapeRuns cs ++ '\n' :: rest) :
    List.replicate quotes '"' <+: cs := by
  fun_induction Document.escapeRuns cs generalizing quotes with
  | case1 cs ih =>
      match quotes with
      | 0 | 1 | 2 => simp
      | quotes + 3 => simp [List.replicate_succ] at begins
  | case2 cs ih =>
      match quotes with
      | 0 => simp
      | quotes + 1 => simp [List.replicate_succ] at begins
  | case3 c cs not_three not_backslash ih =>
      match quotes with
      | 0 => simp
      | quotes + 1 =>
          rw [List.replicate_succ, List.cons_append, List.cons_prefix_cons] at begins
          rw [List.replicate_succ, List.cons_prefix_cons]
          exact begins.imp_right ih
  | case4 =>
      match quotes with
      | 0 => simp
      | quotes + 1 => simp [List.replicate_succ] at begins

/-- An escaped text that ends in a line feed is read up to the three quotes behind it. -/
theorem readString_escapeRuns (keepsReturn : Bool) (cs : List Char) {rest : List Char}
    (ended : rest.head? ≠ some '"') :
    readString (.lines keepsReturn) .text
        (Document.escapeRuns cs ++ '\n' :: '"' :: '"' :: '"' :: rest) =
      ((Form.lines keepsReturn).meaningOf? (cs ++ ['\n'])).map (·, rest) := by
  fun_induction Document.escapeRuns cs with
  | case1 cs ih =>
      -- The third quote is escaped, so neither of the first two is followed by two others.
      rw [List.cons_append, List.cons_append, List.cons_append, List.cons_append,
        readString_quote (by simp), readString_quote (by simp), readString_escaped rfl rfl, ih,
        Reading.prepend_map, Reading.prepend_map, Reading.prepend_map, List.cons_append,
        List.cons_append, List.cons_append, Form.meaningOf?_of_verbatim rfl,
        Form.meaningOf?_of_verbatim rfl, Form.meaningOf?_of_verbatim rfl]
  | case2 cs ih =>
      rw [List.cons_append, List.cons_append, readString_escaped rfl rfl, ih, Reading.prepend_map,
        List.cons_append, Form.meaningOf?_of_verbatim rfl]
  | case3 c cs not_three not_backslash ih =>
      rw [List.cons_append, List.cons_append]
      by_cases quote : c = '"'
      · subst quote
        have more : ¬ List.replicate 2 '"' <+:
            Document.escapeRuns cs ++ '\n' :: '"' :: '"' :: '"' :: rest := by
          intro begins
          obtain ⟨tail, rfl⟩ := isPrefix_of_escapeRuns begins
          exact not_three tail rfl rfl
        rw [readString_quote more, ih, Reading.prepend_map, Form.meaningOf?_of_verbatim rfl]
      · have same : (Document.escapeRuns cs ++ '\n' :: '"' :: '"' :: '"' :: rest).head? =
            (cs ++ ['\n']).head? := by
          rw [List.head?_append, List.head?_append, head?_escapeRuns]
          rfl
        rw [readString_other quote not_backslash, Form.meaningOf?, Form.meaning?_congr same, ih]
        cases (Form.lines keepsReturn).meaning? c (cs ++ ['\n']) with
        | none => rfl
        | some text => exact Reading.prepend_map text rest _
  | case4 =>
      rw [List.nil_append, readString_other (by decide) (by decide),
        readString_closing keepsReturn ended]
      rfl

/-! ## Texts that are read as they are -/

/-- A text that stands for itself in a string on several lines: its control characters are tabs
and line breaks, and every carriage return belongs to a line break that the reader keeps. -/
structure IsKept (keepsReturn : Bool) (cs : List Char) : Prop where
  writable : IsWritable cs
  returns : ∀ before after, cs = before ++ '\r' :: after →
    keepsReturn = true ∧ after.head? = some '\n'

namespace Form

variable {keepsReturn : Bool} {c : Char} {cs rest text : List Char}

theorem meaning?_eq_self_iff :
    (Form.lines keepsReturn).meaning? c rest = some [c] ↔
      (isControl c → c = '\n' ∨ c = '\r') ∧
        (c = '\r' → keepsReturn = true ∧ rest.head? = some '\n') := by
  unfold meaning?
  by_cases carriage : c = '\r'
  · by_cases feed : rest.head? = some '\n'
    · cases keepsReturn <;> simp [carriage, feed]
    · simp [carriage, feed]
  · by_cases control : isControl c <;> by_cases feed : c = '\n' <;> simp [carriage, control, feed]

/-- A character stands for itself or, as a part of a line break, for nothing. -/
theorem of_meaning? (meant : (Form.lines keepsReturn).meaning? c rest = some text) :
    text = [c] ∨ text = [] := by
  unfold meaning? at meant
  grind

theorem length_meaningOf? (meant : (Form.lines keepsReturn).meaningOf? cs = some text) :
    text.length ≤ cs.length := by
  induction cs generalizing text with
  | nil =>
      cases meant
      exact Nat.le_refl _
  | cons c cs ih =>
      obtain ⟨first, single, more⟩ := Option.bind_eq_some_iff.mp meant
      obtain ⟨others, found, rfl⟩ := Option.map_eq_some_iff.mp more
      have rest := ih found
      cases of_meaning? single with
      | inl same => simpa [same] using rest
      | inr dropped => simpa [dropped] using Nat.le_succ_of_le rest

end Form

theorem isKept_cons {keepsReturn : Bool} {c : Char} {cs : List Char} :
    IsKept keepsReturn (c :: cs) ↔
      (Form.lines keepsReturn).meaning? c cs = some [c] ∧ IsKept keepsReturn cs := by
  rw [Form.meaning?_eq_self_iff]
  constructor
  · intro kept
    obtain ⟨first, others⟩ := isWritable_cons.mp kept.writable
    refine ⟨⟨first, fun carriage => ?_⟩, others, fun before after whole => ?_⟩
    · exact kept.returns [] cs (by rw [carriage, List.nil_append])
    · exact kept.returns (c :: before) after (by rw [whole, List.cons_append])
  · intro both
    obtain ⟨⟨first, carriage⟩, kept⟩ := both
    refine ⟨isWritable_cons.mpr ⟨first, kept.writable⟩, fun before after whole => ?_⟩
    cases before with
    | nil =>
        rw [List.nil_append, List.cons.injEq] at whole
        rw [← whole.2]
        exact carriage whole.1
    | cons d before =>
        rw [List.cons_append, List.cons.injEq] at whole
        exact kept.returns before after whole.2

/-- The texts that stand for themselves are those that are kept. -/
theorem meaningOf?_eq_self_iff {keepsReturn : Bool} {cs : List Char} :
    (Form.lines keepsReturn).meaningOf? cs = some cs ↔ IsKept keepsReturn cs := by
  induction cs with
  | nil => exact ⟨fun _ => ⟨by simp [IsWritable], by simp⟩, fun _ => rfl⟩
  | cons c cs ih =>
      rw [isKept_cons, ← ih]
      constructor
      · intro same
        obtain ⟨first, single, more⟩ := Option.bind_eq_some_iff.mp same
        obtain ⟨others, found, whole⟩ := Option.map_eq_some_iff.mp more
        cases Form.of_meaning? single with
        | inl itself =>
            rw [itself, List.singleton_append, List.cons.injEq] at whole
            exact ⟨itself ▸ single, whole.2 ▸ found⟩
        | inr dropped =>
            -- What is dropped makes the text shorter.
            have most := Form.length_meaningOf? found
            rw [dropped, List.nil_append] at whole
            rw [whole, List.length_cons] at most
            omega
      · intro both
        rw [Form.meaningOf?_of_verbatim both.1, both.2]
        rfl

end Toml

end AgentKit
