/-
# Scalars on one line

What is read of a scalar that lies on one line. A plain one is read as it is written. What is
escaped in double quotes is read as what it was before, if no Unicode separator is in it: the
separators are not escaped, and there they end the line.
-/

import AgentKit.Document.Quoted
import AgentKit.Proofs.Text.Members
import AgentKit.Yaml.Token.Stream

namespace AgentKit.Yaml

open Document (escape escapeChar)

variable {c : Char} {cs rest text : List Char} {mark : Mark} {gap : Gap}

/-! ## Characters and positions on a line -/

/-- A character that a document may hold and that is no line break of Unicode alone: what
double quotes can hold. -/
def isQuotable (c : Char) : Bool :=
  isAllowed c && c != '\u0085' && c != '\u2028' && c != '\u2029'

/-- A character that a document may hold and that ends no line, in whatever spelling. -/
def isInline (c : Char) : Bool :=
  isQuotable c && c != '\n' && c != '\r'

theorem not_isBreak_of_isInline (inline : isInline c) : isBreak c = false := by
  simp [isInline, isQuotable] at inline
  simp [isBreak, inline]

theorem normalizeBreaks_eq_self (unified : ∀ c ∈ cs, c ≠ '\r' ∧ c ≠ '\u0085') :
    normalizeBreaks cs = cs := by
  fun_induction normalizeBreaks cs with
  | case1 => rfl
  | case2 | case3 | case4 => simp at unified
  | case5 c rest _ _ _ ih => rw [ih fun d member => unified d (List.mem_cons_of_mem _ member)]

/-- A character that is left alone when a text is made ready for reading. -/
def isSettled (c : Char) : Bool :=
  isAllowed c && c != '\r' && c != '\u0085'

theorem isSettled_of_isInline (inline : isInline c) : isSettled c := by
  simp only [isInline, isQuotable, Bool.and_eq_true] at inline
  simp [isSettled, inline]

/-- A text of such characters needs no preparation. -/
theorem prepare_of_isSettled (settled : ∀ c ∈ cs, isSettled c) : prepare cs = .ok cs := by
  have unified : ∀ c ∈ cs, c ≠ '\r' ∧ c ≠ '\u0085' := by
    intro c member
    have here := settled c member
    simp only [isSettled, Bool.and_eq_true, bne_iff_ne] at here
    exact ⟨here.1.2, here.2⟩
  have allowed : cs.all isAllowed := by
    refine List.all_eq_true.mpr fun c member => ?_
    have here := settled c member
    simp only [isSettled, Bool.and_eq_true] at here
    exact here.1.1
  rw [prepare, if_pos allowed, normalizeBreaks_eq_self unified]

namespace Mark

theorem over_cons (mark : Mark) (c : Char) (cs : List Char) :
    mark.over (c :: cs) = (mark.next c).over cs := rfl

theorem over_append (mark : Mark) (first second : List Char) :
    mark.over (first ++ second) = (mark.over first).over second :=
  List.foldl_append

theorem next_of_isInline (inline : isInline c) (mark : Mark) :
    (mark.next c).line = mark.line ∧ (mark.next c).column = mark.column + 1 := by
  simp [next, not_isBreak_of_isInline inline]

theorem column_next_ne_zero (inline : isInline c) (mark : Mark) : (mark.next c).column ≠ 0 := by
  rw [(next_of_isInline inline mark).2]
  exact Nat.succ_ne_zero _

/-- On one line the column counts characters. -/
theorem over_of_isInline (inline : ∀ c ∈ cs, isInline c) (mark : Mark) :
    (mark.over cs).line = mark.line ∧ (mark.over cs).column = mark.column + cs.length := by
  induction cs generalizing mark with
  | nil => exact ⟨rfl, rfl⟩
  | cons c cs ih =>
      obtain ⟨first, others⟩ := List.forall_mem_cons.mp inline
      obtain ⟨line, column⟩ := next_of_isInline first mark
      obtain ⟨lines, columns⟩ := ih others (mark.next c)
      rw [over_cons, lines, columns, line, column, List.length_cons]
      exact ⟨rfl, by omega⟩

theorem column_over_ne_zero (inline : ∀ c ∈ cs, isInline c) (later : mark.column ≠ 0) :
    (mark.over cs).column ≠ 0 := by
  rw [(over_of_isInline inline mark).2]
  omega

theorem index_over_le (mark : Mark) (cs : List Char) :
    (mark.over cs).index ≤ mark.index + 4 * cs.length := by
  induction cs generalizing mark with
  | nil => exact Nat.le_refl _
  | cons c cs ih =>
      have size := Char.utf8Size_le_four c
      have first : (mark.next c).index = mark.index + c.utf8Size := by
        unfold next
        split <;> rfl
      have others := ih (mark.next c)
      rw [over_cons, List.length_cons]
      omega

end Mark

/-! ## Gaps on a line -/

theorem Gap.addBlank_unbroken (unbroken : gap.isBroken = false) (c : Char) :
    (gap.addBlank c).isBroken = false ∧ (gap.addBlank c).text.reverse = c :: gap.text.reverse := by
  cases gap with
  | none => exact ⟨rfl, rfl⟩
  | blanks reversed => simp [addBlank, isBroken, Gap.text]
  | breaks first reversed => contradiction

/-! ## Plain scalars -/

/-- A text that is read as it is written, without quotes, where a value can stand. -/
structure IsPlain (cs : List Char) : Prop where
  filled : cs ≠ []
  begins : ∀ c ∈ cs.head?, isSolid c ∧ c ∉ TokenReader.indicators
  ends : ∀ c ∈ cs.getLast?, isSolid c
  inside : ∀ c ∈ cs, isInline c ∧ c ≠ ':' ∧ c ≠ '#' ∧ c ≠ '\t'

instance : DecidablePred IsPlain := fun cs =>
  decidable_of_iff (cs ≠ [] ∧ (∀ c ∈ cs.head?, isSolid c ∧ c ∉ TokenReader.indicators) ∧
      (∀ c ∈ cs.getLast?, isSolid c) ∧ ∀ c ∈ cs, isInline c ∧ c ≠ ':' ∧ c ≠ '#' ∧ c ≠ '\t')
    ⟨fun ⟨filled, begins, ends, inside⟩ => ⟨filled, begins, ends, inside⟩,
      fun ⟨filled, begins, ends, inside⟩ => ⟨filled, begins, ends, inside⟩⟩

variable {scope : PlainScope}

theorem PlainScope.not_endsBefore (shallow : scope.indent ≤ 1) (inside : mark.column ≠ 0)
    (other : c ≠ '#') (gap : Gap) (rest : List Char) :
    scope.endsBefore mark gap c rest = false := by
  simp only [endsBefore, inside, other, decide_false, Bool.false_and, Bool.and_false,
    Bool.or_false, Bool.and_eq_false_iff, decide_eq_false_iff_not]
  omega

theorem PlainScope.not_endsBefore_first (other : mark.column = 0 → c ≠ '-' ∧ c ≠ '.')
    (rest : List Char) : scope.endsBefore mark .none c rest = false := by
  by_cases start : mark.column = 0
  · obtain ⟨hyphen, stop⟩ := other start
    simp [endsBefore, atDocumentMark, hyphen, stop]
  · simp [endsBefore, start]

/-- A solid character belongs to a plain scalar, unless something ends the scalar there. -/
theorem readPlain_solid (outside : scope.inFlow = false) (solid : isSolid c) (other : c ≠ ':')
    (goes_on : scope.endsBefore mark gap c rest = false) :
    readPlain scope mark gap text (c :: rest) =
      readPlain scope (mark.next c) .none (c :: (gap.text.reverse ++ text)) rest := by
  simp [isSolid] at solid
  rw [readPlain]
  simp [solid, goes_on, outside, PlainScope.endsAt, other]

/-- What can stand inside a plain scalar is taken up; blanks wait for what follows them. -/
theorem readPlain_inside (outside : scope.inFlow = false) (shallow : scope.indent ≤ 1)
    (inside : ∀ c ∈ cs, isInline c ∧ c ≠ ':' ∧ c ≠ '#' ∧ c ≠ '\t') (later : mark.column ≠ 0)
    (unbroken : gap.isBroken = false) (text : List Char) :
    ∃ gap' text', gap'.isBroken = false ∧
      gap'.text.reverse ++ text' = cs.reverse ++ (gap.text.reverse ++ text) ∧
      ∀ rest, readPlain scope mark gap text (cs ++ rest) =
        readPlain scope (mark.over cs) gap' text' rest := by
  induction cs generalizing mark gap text with
  | nil => exact ⟨gap, text, unbroken, rfl, fun rest => rfl⟩
  | cons c cs ih =>
      obtain ⟨⟨inline, colon, hash, tab⟩, others⟩ := List.forall_mem_cons.mp inside
      have later' : (mark.next c).column ≠ 0 := Mark.column_next_ne_zero inline mark
      by_cases blank : isBlank c
      · obtain ⟨unbroken', taken⟩ := gap.addBlank_unbroken unbroken c
        obtain ⟨gap', text', still, whole, reads⟩ := ih others later' unbroken' text
        refine ⟨gap', text', still, ?_, fun rest => ?_⟩
        · rw [whole, taken]
          simp
        · rw [List.cons_append, readPlain, Mark.over_cons, ← reads]
          simp [blank, unbroken]
      · have solid : isSolid c := by simp [isSolid, blank, not_isBreak_of_isInline inline]
        obtain ⟨gap', text', still, whole, reads⟩ :=
          ih others later' (show Gap.none.isBroken = false from rfl) (c :: (gap.text.reverse ++ text))
        refine ⟨gap', text', still, ?_, fun rest => ?_⟩
        · rw [whole]
          simp [Gap.text]
        · rw [List.cons_append, readPlain_solid outside solid colon
            (PlainScope.not_endsBefore shallow later hash gap _), reads, Mark.over_cons]

/-- A plain text is taken up as a whole, with no gap left behind it. -/
theorem readPlain_plain (outside : scope.inFlow = false) (shallow : scope.indent ≤ 1)
    (plain : IsPlain cs) (marked : mark.column = 0 → cs.head? ≠ some '.') (rest : List Char) :
    readPlain scope mark .none [] (cs ++ rest) =
      readPlain scope (mark.over cs) .none cs.reverse rest := by
  obtain ⟨c, cs, rfl⟩ := List.exists_cons_of_ne_nil plain.filled
  obtain ⟨⟨inline, colon, hash, tab⟩, others⟩ := List.forall_mem_cons.mp plain.inside
  obtain ⟨solid, indicated⟩ := plain.begins c rfl
  have first : mark.column = 0 → c ≠ '-' ∧ c ≠ '.' := fun start =>
    ⟨fun same => indicated (same ▸ List.mem_cons_self), fun same => marked start (by rw [same]; rfl)⟩
  rw [List.cons_append, readPlain_solid outside solid colon (PlainScope.not_endsBefore_first first _),
    Mark.over_cons]
  have later : (mark.next c).column ≠ 0 := Mark.column_next_ne_zero inline mark
  rcases List.eq_nil_or_concat cs with rfl | ⟨init, last, rfl⟩
  · rfl
  · rw [List.concat_eq_append] at others plain ⊢
    obtain ⟨before, ⟨inline', colon', hash', -⟩, -⟩ := by simpa only [List.forall_mem_append,
      List.forall_mem_cons] using others
    obtain ⟨gap', text', -, whole, reads⟩ := readPlain_inside outside shallow before later
      (show Gap.none.isBroken = false from rfl) [c]
    have solid' : isSolid last := plain.ends last (List.getLast?_concat (l := c :: init))
    have later' : ((mark.next c).over init).column ≠ 0 :=
      Mark.column_over_ne_zero (fun d member => (before d member).1) later
    rw [List.append_assoc]
    refine (reads _).trans ?_
    rw [List.singleton_append, readPlain_solid outside solid' colon'
      (PlainScope.not_endsBefore shallow later' hash' gap' _), whole, Mark.over_append]
    simp [Gap.text, Mark.over]

theorem readPlain_colon (gapped : atGap rest) (text : List Char) :
    readPlain scope mark .none text (':' :: rest) =
      if scope.inFlow && isDanglingColon ':' rest then .error .unexpectedCharacter
      else .ok ⟨text.reverse, false, ⟨mark, ':' :: rest⟩⟩ := by
  have goes_on : scope.endsBefore mark .none ':' rest = false :=
    PlainScope.not_endsBefore_first (fun _ => by decide) rest
  rw [readPlain]
  simp [show isBlank ':' = false from rfl, show isBreak ':' = false from rfl, goes_on,
    PlainScope.endsAt, gapped, Gap.isBroken]

/-- A line that is not indented ends a plain scalar inside an indented block. -/
theorem readPlain_lineFeed (outside : scope.inFlow = false) (indented : 0 < scope.indent)
    (solid : isSolid c) (text : List Char) :
    readPlain scope mark .none text ('\n' :: c :: rest) =
      .ok ⟨text.reverse, true, ⟨mark.next '\n', c :: rest⟩⟩ := by
  have passed : readPlain scope mark .none text ('\n' :: c :: rest) =
      readPlain scope (mark.next '\n') (.breaks (some '\n') []) text (c :: rest) := by
    rw [readPlain]
    rfl
  have ended : scope.endsBefore (mark.next '\n') (.breaks (some '\n') []) c rest := by
    simp [PlainScope.endsBefore, outside, Mark.next, show isBreak '\n' from rfl, indented]
  simp [isSolid] at solid
  rw [passed, readPlain]
  simp [solid, ended, Gap.isBroken]

/-! ## Quoted scalars -/

theorem readDoubleQuoted_solid (solid : isSolid c) (not_quote : c ≠ '"') (not_backslash : c ≠ '\\')
    (later : mark.column ≠ 0) (rest : List Char) :
    readDoubleQuoted mark (.text gap) text (c :: rest) =
      readDoubleQuoted (mark.next c) (.text .none) (c :: (gap.text.reverse ++ text)) rest := by
  simp [isSolid] at solid
  rw [readDoubleQuoted]
  simp [solid, later, not_quote, not_backslash]

theorem readDoubleQuoted_escaped {letter : Char} (means : escapeOf? letter = some (.char c))
    (visible : isBreak letter = false) (later : mark.column ≠ 0) (rest : List Char) :
    readDoubleQuoted mark (.text gap) text ('\\' :: letter :: rest) =
      readDoubleQuoted (mark.over ['\\', letter]) (.text .none)
        (c :: (gap.text.reverse ++ text)) rest := by
  have opened : readDoubleQuoted mark (.text gap) text ('\\' :: letter :: rest) =
      readDoubleQuoted (mark.next '\\') .escape (gap.text.reverse ++ text) (letter :: rest) := by
    rw [readDoubleQuoted]
    simp [show isBlank '\\' = false from rfl, show isBreak '\\' = false from rfl, later]
  rw [opened, readDoubleQuoted]
  simp [visible, means, Mark.over]

theorem readDoubleQuoted_quote (later : mark.column ≠ 0) (text rest : List Char) :
    readDoubleQuoted mark (.text gap) text ('"' :: rest) =
      .ok ⟨(gap.text.reverse ++ text).reverse, ⟨mark.next '"', rest⟩⟩ := by
  rw [readDoubleQuoted]
  simp [show isBlank '"' = false from rfl, show isBreak '"' = false from rfl, later]

/-- A text on one line stands for a character in double quotes: reading it takes up the
character, or a blank that waits in the gap. -/
structure StandsFor (written : List Char) (c : Char) : Prop where
  inline : ∀ d ∈ written, isInline d
  reads : ∀ mark gap text, mark.column ≠ 0 → gap.isBroken = false →
    ∃ gap' text', gap'.isBroken = false ∧
      gap'.text.reverse ++ text' = c :: (gap.text.reverse ++ text) ∧
      ∀ rest, readDoubleQuoted mark (.text gap) text (written ++ rest) =
        readDoubleQuoted (mark.over written) (.text gap') text' rest

/-- What stands for the characters of a text is read as the text, up to the quote behind
it. -/
theorem readDoubleQuoted_flatMap {write : Char → List Char}
    (stands : ∀ c ∈ cs, StandsFor (write c) c) (later : mark.column ≠ 0)
    (unbroken : gap.isBroken = false) (text rest : List Char) :
    readDoubleQuoted mark (.text gap) text (cs.flatMap write ++ '"' :: rest) =
      .ok ⟨(gap.text.reverse ++ text).reverse ++ cs,
        ⟨mark.over (cs.flatMap write ++ ['"']), rest⟩⟩ := by
  induction cs generalizing mark gap text with
  | nil =>
      rw [List.flatMap_nil, List.nil_append, readDoubleQuoted_quote later, List.append_nil]
      rfl
  | cons c cs ih =>
      obtain ⟨first, others⟩ := List.forall_mem_cons.mp stands
      obtain ⟨gap', text', unbroken', whole, reads⟩ := first.reads mark gap text later unbroken
      have later' : (mark.over (write c)).column ≠ 0 := Mark.column_over_ne_zero first.inline later
      rw [List.flatMap_cons, List.append_assoc, reads, ih others later' unbroken', whole,
        List.append_assoc, Mark.over_append _ _ (cs.flatMap write ++ ['"'])]
      simp

/-- A character of the line that is no quote and no backslash stands for itself. -/
theorem standsFor_self (inline : isInline c) (quote : c ≠ '"') (backslash : c ≠ '\\') :
    StandsFor [c] c := by
  refine ⟨by simpa using inline, fun mark gap text later unbroken => ?_⟩
  by_cases blank : isBlank c
  · obtain ⟨unbroken', taken⟩ := gap.addBlank_unbroken unbroken c
    refine ⟨gap.addBlank c, text, unbroken', by rw [taken]; rfl, fun rest => ?_⟩
    rw [List.singleton_append, readDoubleQuoted]
    simp [blank, Mark.over]
  · have solid : isSolid c := by simp [isSolid, blank, not_isBreak_of_isInline inline]
    exact ⟨.none, _, rfl, rfl, readDoubleQuoted_solid solid quote backslash later⟩

/-- An escape of one letter stands for what the letter means. -/
theorem standsFor_letter {letter : Char} (means : escapeOf? letter = some (.char c))
    (inline : isInline letter) : StandsFor ['\\', letter] c :=
  ⟨by simpa [show isInline '\\' from rfl] using inline, fun _ _ _ later _ =>
    ⟨.none, _, rfl, rfl, readDoubleQuoted_escaped means (not_isBreak_of_isInline inline) later⟩⟩

/-- The escaped form of a character stands for it. -/
theorem standsFor_escapeChar (quotable : isQuotable c) : StandsFor (escapeChar c) c := by
  unfold escapeChar
  split
  case h_6 not_backslash not_quote not_feed not_return _ =>
    have inline : isInline c := by
      simp only [isInline, quotable, Bool.true_and, Bool.and_eq_true, bne_iff_ne]
      exact ⟨not_feed, not_return⟩
    exact standsFor_self inline not_quote not_backslash
  all_goals exact standsFor_letter rfl rfl

/-- Escaping keeps a text on its line. -/
theorem isInline_of_mem_escape (quotable : ∀ c ∈ cs, isQuotable c) {d : Char}
    (member : d ∈ escape cs) : isInline d := by
  obtain ⟨c, inside, member⟩ := List.mem_flatMap.mp member
  exact (standsFor_escapeChar (quotable c inside)).inline d member

/-- A text that was escaped is read back, up to the quote behind it. -/
theorem readDoubleQuoted_escape (quotable : ∀ c ∈ cs, isQuotable c) (later : mark.column ≠ 0)
    (rest : List Char) :
    readDoubleQuoted mark (.text .none) [] (escape cs ++ '"' :: rest) =
      .ok ⟨cs, ⟨mark.over (escape cs ++ ['"']), rest⟩⟩ :=
  readDoubleQuoted_flatMap (fun c inside => standsFor_escapeChar (quotable c inside)) later rfl []
    rest

end AgentKit.Yaml
