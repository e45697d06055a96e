/-
# Reading what is written plainly

A plain scalar may hold colons and number signs, if no gap stands behind the colon and
none before the number sign. Whether there is one shows at the character before, so the
text is read with that character at hand: the reader has passed a gap exactly if it is a
blank.
-/

import AgentKit.Proofs.Yaml.Fields
import AgentKit.Yaml.Scalar.Writing

namespace AgentKit.Yaml

variable {c previous : Char} {cs rest text : List Char} {mark : Mark} {gap : Gap}

/-! ## Characters that are written as they are -/

theorem isAllowed_of_isPrintable (printable : isPrintable c) : isAllowed c := by
  simp only [isPrintable, printableRanges, List.any_cons, List.any_nil, Bool.or_false,
    Bool.or_eq_true, Bool.and_eq_true, decide_eq_true_eq] at printable
  simp only [isAllowed, allowedRanges, List.any_cons, List.any_nil, Bool.or_false,
    Bool.or_eq_true, Bool.and_eq_true, decide_eq_true_eq]
  omega

/-- The characters that a document may hold but that are never written as they are. -/
theorem not_mem_of_isPrintable (printable : isPrintable c) :
    c ∉ ['\t', '\r', '\u0085', byteOrderMark] :=
  Text.not_mem_of_holds (isPrintable ·) printable (by decide)

theorem ne_tab_of_isPrintable (printable : isPrintable c) : c ≠ '\t' :=
  fun same => not_mem_of_isPrintable printable (by simp [same])

/-- Of the characters that are written as they are, only line breaks end a line. -/
theorem isInline_of_isPrintable (printable : isPrintable c) (line : isBreak c = false) :
    isInline c := by
  have other := not_mem_of_isPrintable printable
  simp only [List.mem_cons, List.not_mem_nil, or_false, not_or] at other
  simp only [isBreak, Bool.or_eq_false_iff, decide_eq_false_iff_not] at line
  simp [isInline, isQuotable, isAllowed_of_isPrintable printable, other, line]

theorem eq_space_of_isBlank (printable : isPrintable c) (blank : isBlank c) : c = ' ' := by
  simpa [isBlank, ne_tab_of_isPrintable printable] using blank

/-! ## What follows a line -/

/-- What can follow a line: nothing, or a line that begins with a letter or a hyphen. -/
def StartsLine (rest : List Char) : Prop :=
  ∀ c ∈ rest.head?, c.isAlpha ∨ c = '-'

theorem StartsLine.isSolid (starts : StartsLine (c :: rest)) :
    isSolid c ∧ c ≠ '#' ∧ c ≠ byteOrderMark := by
  rcases starts c rfl with letter | rfl
  · have other : c ∉ ['#', byteOrderMark] :=
      Text.not_mem_of_holds (·.isAlpha) letter (by decide)
    simp only [List.mem_cons, List.not_mem_nil, or_false, not_or] at other
    exact ⟨TokenReader.isSolid_of_isAlpha letter, other⟩
  · decide

/-! ## Plain scalars -/

/-- A gap that was passed behind a character on a line: there is one exactly if the
character is a blank. -/
def Gap.IsBehind (gap : Gap) (previous : Char) : Prop :=
  gap.isBroken = false ∧ (gap = .none ↔ isSolid previous)

theorem Gap.isBehind_none (solid : isSolid c) : Gap.none.IsBehind c :=
  ⟨rfl, by simp [solid]⟩

theorem Gap.IsBehind.addBlank (behind : gap.IsBehind previous) (blank : isBlank c) :
    (gap.addBlank c).IsBehind c ∧ (gap.addBlank c).text.reverse = c :: gap.text.reverse := by
  obtain ⟨unbroken, taken⟩ := gap.addBlank_unbroken behind.1 c
  refine ⟨⟨unbroken, ?_⟩, taken⟩
  have solid : isSolid c = false := by simp [isSolid, blank]
  rw [solid]
  cases gap <;> simp [Gap.addBlank]

variable {scope : PlainScope}

theorem hasInnerIndicator_cons (clean : hasInnerIndicator previous (c :: rest) = false) :
    (c = ':' → atGap rest = false) ∧ (c = '#' → isSolid previous) ∧
      hasInnerIndicator c rest = false := by
  simp only [hasInnerIndicator, Bool.or_eq_false_iff, Bool.and_eq_false_iff,
    decide_eq_false_iff_not, Bool.not_eq_false'] at clean
  obtain ⟨⟨colon, hash⟩, later⟩ := clean
  exact ⟨fun same => colon.resolve_left (not_not_intro same),
    fun same => hash.resolve_left (not_not_intro same), later⟩

theorem atGap_append (gapped : atGap rest) (first : List Char) :
    atGap (first ++ rest) = atGap first := by
  cases first with
  | nil => exact gapped
  | cons c others => rfl

/-- A solid character goes on with a plain scalar outside flow collections, if it is no
colon before a gap and no number sign behind one. -/
theorem readPlain_character (outside : scope.inFlow = false) (shallow : scope.indent ≤ 1)
    (later : mark.column ≠ 0) (behind : gap.IsBehind previous) (solid : isSolid c)
    (colon : c = ':' → atGap rest = false) (hash : c = '#' → isSolid previous) :
    readPlain scope mark gap text (c :: rest) =
      readPlain scope (mark.next c) .none (c :: (gap.text.reverse ++ text)) rest := by
  have goes_on : scope.endsBefore mark gap c rest = false := by
    by_cases sign : c = '#'
    · rw [behind.2.mpr (hash sign)]
      exact PlainScope.not_endsBefore_first (fun start => absurd start later) rest
    · exact PlainScope.not_endsBefore shallow later sign gap rest
  have stays : scope.endsAt c rest = false := by
    by_cases same : c = ':'
    · simp [PlainScope.endsAt, outside, colon same]
    · simp [PlainScope.endsAt, outside, same]
  simp [isSolid] at solid
  rw [readPlain]
  simp [solid, goes_on, outside, stays]

/-- A text without indicators inside is taken up behind a character. Blanks at its end wait
for what follows. -/
theorem readPlain_clean (outside : scope.inFlow = false) (shallow : scope.indent ≤ 1)
    (inside : ∀ c ∈ cs, isInline c ∧ c ≠ '\t') (clean : hasInnerIndicator previous cs = false)
    (later : mark.column ≠ 0) (behind : gap.IsBehind previous) (gapped : atGap rest)
    (text : List Char) :
    ∃ gap' text', gap'.IsBehind (cs.getLast?.getD previous) ∧
      gap'.text.reverse ++ text' = cs.reverse ++ (gap.text.reverse ++ text) ∧
      readPlain scope mark gap text (cs ++ rest) =
        readPlain scope (mark.over cs) gap' text' rest := by
  induction cs generalizing mark gap text previous with
  | nil => exact ⟨gap, text, behind, rfl, rfl⟩
  | cons c cs ih =>
      obtain ⟨⟨inline, tab⟩, others⟩ := List.forall_mem_cons.mp inside
      obtain ⟨colon, hash, clean⟩ := hasInnerIndicator_cons clean
      have later' : (mark.next c).column ≠ 0 := Mark.column_next_ne_zero inline mark
      have last : (c :: cs).getLast?.getD previous = cs.getLast?.getD c := by
        cases cs <;> simp [List.getLast?_cons]
      rw [last]
      by_cases blank : isBlank c
      · obtain ⟨behind', taken⟩ := behind.addBlank blank
        obtain ⟨gap', text', final, whole, reads⟩ := ih others clean later' behind' text
        refine ⟨gap', text', final, ?_, ?_⟩
        · rw [whole, taken]
          simp
        · rw [List.cons_append, readPlain, Mark.over_cons, ← reads]
          simp [blank, behind.1]
      · have solid : isSolid c := by simp [isSolid, blank, not_isBreak_of_isInline inline]
        obtain ⟨gap', text', final, whole, reads⟩ :=
          ih others clean later' (Gap.isBehind_none solid) (c :: (gap.text.reverse ++ text))
        refine ⟨gap', text', final, ?_, ?_⟩
        · rw [whole]
          simp [Gap.text]
        · rw [List.cons_append, readPlain_character outside shallow later behind solid ?_ hash,
            reads, Mark.over_cons]
          rw [atGap_append gapped]
          exact colon

/-- A line that is not indented ends a plain scalar inside an indented block, and so does
the end of the text. -/
theorem readPlain_lineEnd (outside : scope.inFlow = false) (indented : 0 < scope.indent)
    (starts : StartsLine rest) (text : List Char) :
    readPlain scope mark .none text ('\n' :: rest) =
      .ok ⟨text.reverse, true, ⟨mark.next '\n', rest⟩⟩ := by
  cases rest with
  | nil => rfl
  | cons c others => exact readPlain_lineFeed outside indented starts.isSolid.1 text

/-! ## What fits a plain scalar -/

/-- What can be written plainly, character by character. -/
structure FitsPlain (c : Char) (cs : List Char) : Prop where
  inside : ∀ d ∈ c :: cs, isPrintable d ∧ isBreak d = false
  begins : isSolid c ∧ c ∉ leadingIndicators
  /-- A hyphen, a colon or a question mark in front is followed by a solid character. -/
  follows : c ∈ ['?', ':', '-'] → atGap cs = false
  clean : hasInnerIndicator c cs = false
  ends : isSolid (cs.getLast?.getD c)

theorem fitsPlain_of_fitsPlain (fits : fitsPlain (c :: cs)) : FitsPlain c cs := by
  simp only [fitsPlain, isWritable, Bool.and_eq_true, Bool.not_eq_true'] at fits
  obtain ⟨⟨⟨⟨⟨⟨printable, -⟩, lines⟩, space⟩, last⟩, leads⟩, clean⟩ := fits
  have inside : ∀ d ∈ c :: cs, isPrintable d ∧ isBreak d = false := fun d member =>
    ⟨List.all_eq_true.mp printable d member, by simpa using List.any_eq_false.mp lines d member⟩
  have solid : ∀ d ∈ c :: cs, isSpace d = false → isSolid d := by
    intro d member other
    have blank : isBlank d = false := by
      refine Bool.eq_false_iff.mpr fun blank => ?_
      simp [isSpace, eq_space_of_isBlank (inside d member).1 blank] at other
    simp [isSolid, blank, (inside d member).2]
  have leads' : leadingIndicators.contains c = false ∧
      (['?', ':', '-'].contains c && atGap cs) = false := by
    unfold hasLeadingIndicator at leads
    split at leads
    · contradiction
    · contradiction
    · next shape =>
      obtain ⟨rfl, rfl⟩ := List.cons.inj shape
      simpa using leads
    · contradiction
  refine ⟨inside, ⟨solid c List.mem_cons_self space, ?_⟩, ?_, clean, ?_⟩
  · simpa using leads'.1
  · intro member
    simpa [member] using leads'.2
  · cases shape : cs.getLast? with
    | none => exact solid c List.mem_cons_self space
    | some d =>
        have final : (c :: cs).getLast? = some d := by
          simp [List.getLast?_cons, shape]
        rw [final] at last
        exact solid d (List.mem_cons_of_mem c (List.mem_of_getLast? shape)) (by simpa using last)

namespace FitsPlain

theorem isInline (fits : FitsPlain c cs) : ∀ d ∈ c :: cs, Yaml.isInline d ∧ d ≠ '\t' :=
  fun d member => ⟨isInline_of_isPrintable (fits.inside d member).1 (fits.inside d member).2,
    ne_tab_of_isPrintable (fits.inside d member).1⟩

theorem colon (fits : FitsPlain c cs) (same : c = ':') : atGap cs = false :=
  fits.follows (by simp [same])

/-- What fits a plain scalar is read as it is written, up to the end of its line. -/
theorem readPlain (fits : FitsPlain c cs) (later : mark.column ≠ 0) (starts : StartsLine rest) :
    Yaml.readPlain ⟨false, 1⟩ mark .none [] (c :: cs ++ '\n' :: rest) =
      .ok ⟨c :: cs, true, ⟨(mark.over (c :: cs)).next '\n', rest⟩⟩ := by
  obtain ⟨⟨inline, -⟩, others⟩ := List.forall_mem_cons.mp fits.isInline
  have gapped : atGap ('\n' :: rest) := rfl
  have shallow : (⟨false, 1⟩ : PlainScope).indent ≤ 1 := Int.le_refl 1
  obtain ⟨gap, text, behind, whole, reads⟩ := readPlain_clean rfl shallow others fits.clean
    (Mark.column_next_ne_zero inline mark) (Gap.isBehind_none fits.begins.1) gapped [c]
  obtain rfl := behind.2.mpr fits.ends
  have taken : text = (c :: cs).reverse := by simpa [Gap.text] using whole
  have colon : c = ':' → atGap (cs ++ '\n' :: rest) = false := by
    rw [atGap_append gapped]
    exact fits.colon
  rw [List.cons_append, readPlain_character rfl shallow later
    (Gap.isBehind_none (show isSolid 'a' from rfl)) fits.begins.1 colon fun _ => rfl]
  refine reads.trans ?_
  rw [readPlain_lineEnd rfl Int.one_pos starts, Mark.over_cons, taken, List.reverse_reverse]

end FitsPlain

end AgentKit.Yaml
