/-
# Reading literal blocks

In a literal block every character stays as it is. Only the line breaks at the end could be
lost, and the spaces or empty lines at the beginning could be taken for indentation; what the
first line says prevents both. So what was read so far is the text up to here, of which the
last line breaks still wait: they count if another line with text comes, and at the end the
first line decides.
-/

import AgentKit.Proofs.Yaml.Scalar.Plain
import AgentKit.Yaml.Token.Block

namespace AgentKit.Yaml

variable {c : Char} {cs rest text : List Char} {mark : Mark} {scope : BlockScope}

theorem Mark.over_singleton (mark : Mark) (c : Char) : mark.over [c] = mark.next c := rfl

/-! ## The first line -/

/-- The character that stands for a chomping. -/
def Chomping.hint : Chomping → List Char
  | .strip => ['-']
  | .clip => []
  | .keep => ['+']

/-- What keeps the line breaks at the end of a text as they are, and adds none. -/
def chompingFor (cs : List Char) : Chomping :=
  match cs.reverse with
  | [] => .strip
  | last :: before =>
    if !isBreak last then .strip else if before.head?.all isBreak then .keep else .clip

theorem chompingHint_eq_hint (cs : List Char) : chompingHint cs = (chompingFor cs).hint := by
  unfold chompingHint chompingFor
  cases cs.reverse with
  | nil => rfl
  | cons last before =>
      cases h : isBreak last <;> cases h' : before.head?.all isBreak <;> simp [h, h', Chomping.hint]

theorem chompingFor_reverse (last : Char) (before : List Char) :
    chompingFor (last :: before).reverse =
      if !isBreak last then .strip else if before.head?.all isBreak then .keep else .clip := by
  rw [chompingFor, List.reverse_reverse]

/-- Whether the first line of a block fixes its indentation. -/
def isHinted (cs : List Char) : Bool :=
  cs.head?.any fun c => isSpace c || isBreak c

theorem indentHint_eq (cs : List Char) : indentHint cs = if isHinted cs then ['2'] else [] := by
  cases cs <;> rfl

theorem readBlockHeader_hint (hinted : Bool) (chomping : Chomping) (mark : Mark)
    (rest : List Char) :
    readBlockHeader ⟨mark, (if hinted then ['2'] else []) ++ chomping.hint ++ '\n' :: rest⟩ =
      (⟨chomping, if hinted then some 2 else none⟩,
        ⟨mark.over ((if hinted then ['2'] else []) ++ chomping.hint), '\n' :: rest⟩) := by
  cases hinted <;> cases chomping <;> rfl

/-! ## The first lines -/

/-- Where the indentation is fixed, the empty lines at the start can as well be read like
those between two lines with text. -/
theorem readBlockLines_lead (mark : Mark) (widest : Nat) (breaks text lines : List Char) :
    (do
      let lead ← readBlockLead (some scope.indent) mark widest breaks lines
      readBlockLines scope lead.cursor.mark (.lead false none lead.breaks.reverse) text
        lead.cursor.rest) =
      readBlockLines scope mark (.lead false none breaks) text lines := by
  induction lines generalizing mark widest breaks with
  | nil => simp [readBlockLead, readBlockLines, bind, Except.bind]
  | cons c rest ih =>
      have inside : isIndentation (some scope.indent) mark.column =
          decide (mark.column < scope.indent) := rfl
      rw [readBlockLead, readBlockLines, inside]
      split
      · exact ih ..
      · split
        · rfl
        · split
          · exact ih ..
          · next space tab line =>
            have again : readBlockLines scope mark (.lead false none breaks) text (c :: rest) =
                if mark.column = scope.indent then
                  readBlockLines scope (mark.next c) (.line (isBlank c))
                    (c :: ((blockJoin scope.folded false (isBlank c) none breaks.reverse).reverse ++
                      text)) rest
                else .ok ⟨text.reverse ++ blockEnd scope.chomping none breaks.reverse,
                  ⟨mark, c :: rest⟩⟩ := by
              rw [readBlockLines, if_neg space, if_neg tab, if_neg line]
            rw [← again]
            simp [bind, Except.bind]

/-- Where the indentation is not fixed, it is the one of the first line, which has text. -/
theorem readBlockLead_indented (start : mark.column = 0) (solid : isSolid c) (rest : List Char) :
    readBlockLead none mark 0 [] (innerIndent ++ c :: rest) =
      .ok ⟨[], 2, ⟨mark.over innerIndent, c :: rest⟩⟩ := by
  simp only [isSolid, isBlank, Bool.and_eq_true, Bool.not_eq_true', Bool.or_eq_false_iff,
    decide_eq_false_iff_not] at solid
  simp [innerIndent, readBlockLead, isIndentation, solid, Mark.over, Mark.next,
    show isBreak ' ' = false from rfl, start]

theorem readBlockLines_indent (two : scope.indent = 2) (start : mark.column = 0)
    (first : Option Char) (others text rest : List Char) (blankStart : Bool) :
    (mark.over innerIndent).column = 2 ∧
      readBlockLines scope mark (.lead blankStart first others) text (innerIndent ++ rest) =
        readBlockLines scope (mark.over innerIndent) (.lead blankStart first others) text rest := by
  constructor <;>
    simp [innerIndent, readBlockLines, Mark.over, Mark.next, show isBreak ' ' = false from rfl,
      start, two]

/-! ## The lines -/

/-- Whether a line begins where the state is. -/
def BlockState.startsLine : BlockState → Bool
  | .line _ => false
  | .lead _ _ _ => true

/-- The state after the first characters of a text. Behind a character that is no line break
all of them were taken up; else the last line breaks wait, and if nothing but line breaks came
so far, the first of them is not known as such. -/
inductive IsAfter : BlockState → List Char → List Char → Prop
  | line {c : Char} {text : List Char} (blankStart : Bool) (inside : isBreak c = false) :
      IsAfter (.line blankStart) (c :: text) (c :: text).reverse
  | lead {first : Option Char} {others text : List Char} (blankStart : Bool)
      (breaks : ∀ c ∈ first.toList ++ others, isBreak c) (begins : first = none → text = []) :
      IsAfter (.lead blankStart first others) text (text.reverse ++ (first.toList ++ others.reverse))

variable {state : BlockState} {done : List Char}

/-- What is written for a character of a literal block. -/
def literalPart (atStart : Bool) (c : Char) : List Char :=
  if isBreak c then [c] else (if atStart then innerIndent else []) ++ [c]

theorem writeLiteralLines_cons (atStart : Bool) (c : Char) (cs : List Char) :
    writeLiteralLines atStart (c :: cs) =
      literalPart atStart c ++ writeLiteralLines (isBreak c) cs := by
  rw [writeLiteralLines, literalPart]
  cases isBreak c <;> simp

namespace IsAfter

/-- One more character is taken up, or waits if it is a line break. -/
theorem readBlockLines_part (flat : scope.folded = false) (two : scope.indent = 2)
    (after : IsAfter state text done) (start : state.startsLine → mark.column = 0) (c : Char) :
    ∃ state' text', IsAfter state' text' (done ++ [c]) ∧ state'.startsLine = isBreak c ∧
      (isBreak c → (mark.over (literalPart state.startsLine c)).column = 0) ∧
      ∀ rest, readBlockLines scope mark state text (literalPart state.startsLine c ++ rest) =
        readBlockLines scope (mark.over (literalPart state.startsLine c)) state' text' rest := by
  cases line : isBreak c with
  | true =>
      have blank : c ≠ ' ' ∧ c ≠ '\t' := by constructor <;> rintro rfl <;> contradiction
      have column : (mark.next c).column = 0 := by simp [Mark.next, line]
      simp only [literalPart, line, if_true, List.singleton_append]
      cases after with
      | @line d text blankStart inside =>
          refine ⟨.lead blankStart (some c) [], d :: text, ?_, rfl, fun _ => column, fun rest => ?_⟩
          · exact .lead blankStart (by simpa using line) (by simp)
          · rw [readBlockLines]
            simp [line, Mark.over]
      | @lead first others text blankStart breaks begins =>
          refine ⟨.lead blankStart first (c :: others), text, ?_, rfl, fun _ => column,
            fun rest => ?_⟩
          · have whole := @IsAfter.lead first (c :: others) text blankStart
              (by simpa [line, or_imp, forall_and] using breaks) begins
            simpa using whole
          · rw [readBlockLines]
            simp [line, blank, Mark.over]
  | false =>
      simp only [literalPart, line, Bool.false_eq_true, if_false]
      cases after with
      | @line d text blankStart inside =>
          refine ⟨.line blankStart, c :: d :: text, ?_, rfl, by simp, fun rest => ?_⟩
          · simpa using @IsAfter.line c (d :: text) blankStart line
          · simp [BlockState.startsLine, readBlockLines, line, Mark.over]
      | @lead first others text blankStart breaks begins =>
          -- The line breaks before the line are taken up with its first character.
          refine ⟨.line (isBlank c), c :: (others ++ first.toList.reverse ++ text), ?_, rfl, by simp,
            fun rest => ?_⟩
          · have whole := @IsAfter.line c (others ++ first.toList.reverse ++ text) (isBlank c) line
            cases first <;> simpa using whole
          · obtain ⟨column, passes⟩ := readBlockLines_indent two (start rfl) first others text
              (c :: rest) blankStart
            rw [BlockState.startsLine, if_pos rfl, List.append_assoc, List.singleton_append, passes,
              readBlockLines, Mark.over_append, Mark.over_singleton]
            simp [column, two, line, blockJoin, flat]

/-- What is written for a text is taken up, except for line breaks at its end. -/
theorem readBlockLines_written (flat : scope.folded = false) (two : scope.indent = 2)
    (after : IsAfter state text done) (start : state.startsLine → mark.column = 0)
    (cs : List Char) :
    ∃ state' text', IsAfter state' text' (done ++ cs) ∧
      (state'.startsLine →
        (mark.over (writeLiteralLines state.startsLine cs)).column = 0) ∧
      ∀ rest, readBlockLines scope mark state text
          (writeLiteralLines state.startsLine cs ++ rest) =
        readBlockLines scope (mark.over (writeLiteralLines state.startsLine cs)) state' text'
          rest := by
  induction cs generalizing mark state text done with
  | nil => exact ⟨state, text, by simpa using after, start, fun rest => rfl⟩
  | cons c cs ih =>
      obtain ⟨state₁, text₁, after₁, starts, start₁, reads₁⟩ :=
        after.readBlockLines_part flat two start c
      obtain ⟨state₂, text₂, after₂, start₂, reads₂⟩ := ih after₁ (starts ▸ start₁)
      rw [starts] at start₂ reads₂
      refine ⟨state₂, text₂, by simpa using after₂, ?_, fun rest => ?_⟩
      · rwa [writeLiteralLines_cons, Mark.over_append]
      · rw [writeLiteralLines_cons, List.append_assoc, reads₁, reads₂, Mark.over_append]

/-- The state shows whether the text ends in a line break. -/
theorem startsLine_eq (after : IsAfter state text cs) (filled : cs ≠ []) :
    state.startsLine = cs.getLast?.any isBreak := by
  cases after with
  | line blankStart inside => simp [BlockState.startsLine, inside]
  | @lead first others text blankStart breaks begins =>
      have waiting : first.toList ++ others.reverse ≠ [] := by
        intro nothing
        obtain ⟨none, -⟩ := List.append_eq_nil_iff.mp nothing
        rw [nothing, begins (by simpa using none)] at filled
        contradiction
      obtain ⟨before, last, shape⟩ := (List.eq_nil_or_concat _).resolve_left waiting
      have final : last ∈ first.toList ++ others.reverse := by simp [shape]
      rw [shape, List.concat_eq_append, ← List.append_assoc, List.getLast?_concat, Option.any_some,
        breaks last (by simpa using final)]
      rfl

end IsAfter

/-! ## The end of a block -/

theorem readBlockLines_end (flush : mark.column = 0) (indented : scope.indent ≠ 0)
    (starts : StartsLine rest) (blankStart : Bool) (first : Option Char)
    (others text : List Char) :
    readBlockLines scope mark (.lead blankStart first others) text rest =
      .ok ⟨text.reverse ++ blockEnd scope.chomping first others.reverse, ⟨mark, rest⟩⟩ := by
  cases rest with
  | nil => rfl
  | cons c rest =>
      obtain ⟨solid, -, -⟩ := starts.isSolid
      simp only [isSolid, isBlank, Bool.and_eq_true, Bool.not_eq_true', Bool.or_eq_false_iff,
        decide_eq_false_iff_not] at solid
      rw [readBlockLines]
      simp [solid, flush, Ne.symm indented]

/-- The first line says that the line breaks that wait at the end are kept, and how many. -/
theorem blockEnd_chompingFor {first : Option Char} {others text : List Char}
    (breaks : ∀ c ∈ first.toList ++ others, isBreak c) (begins : first = none → text = [])
    (filled : text.reverse ++ (first.toList ++ others.reverse) ≠ []) :
    blockEnd (chompingFor (text.reverse ++ (first.toList ++ others.reverse))) first
      others.reverse = first.toList ++ others.reverse := by
  cases others with
  | nil =>
      cases first with
      | none => simp [begins rfl] at filled
      | some first =>
          -- A single line break is kept whatever is before it.
          have ends : text.reverse ++ ((some first).toList ++ [].reverse) =
              (first :: text).reverse := by simp
          rw [ends, chompingFor_reverse, breaks first (by simp)]
          cases text.head?.all isBreak <;> simp [blockEnd]
  | cons other others =>
      have ends : text.reverse ++ (first.toList ++ (other :: others).reverse) =
          (other :: (others ++ (first.toList.reverse ++ text))).reverse := by simp
      have several : (others ++ (first.toList.reverse ++ text)).head?.all isBreak := by
        cases others with
        | cons other others => simpa using breaks other (by simp)
        | nil =>
            cases first with
            | none => simp [begins rfl]
            | some first => simpa using breaks first (by simp)
      rw [ends, chompingFor_reverse, breaks other (by simp), several]
      rfl

/-- At the end the text is whole, with the line breaks that wait. -/
theorem IsAfter.readBlockLines_end (after : IsAfter state text cs) (filled : cs ≠ [])
    (flush : state.startsLine → mark.column = 0) (starts : StartsLine rest) :
    readBlockLines ⟨false, chompingFor cs, 2⟩ mark state text
        ((if state.startsLine then [] else ['\n']) ++ rest) =
      .ok ⟨cs, ⟨mark.over (if state.startsLine then [] else ['\n']), rest⟩⟩ := by
  cases after with
  | @line c text blankStart inside =>
      have strip : chompingFor (c :: text).reverse = .strip := by simp [chompingFor, inside]
      have ended : readBlockLines ⟨false, .strip, 2⟩ mark (.line blankStart) (c :: text)
          ('\n' :: rest) = readBlockLines ⟨false, .strip, 2⟩ (mark.next '\n')
            (.lead blankStart (some '\n') []) (c :: text) rest := by
        rw [readBlockLines]
        rfl
      rw [strip, BlockState.startsLine, if_neg Bool.false_ne_true, List.singleton_append, ended,
        Yaml.readBlockLines_end rfl (by decide) starts]
      simp [blockEnd, Mark.over]
  | @lead first others text blankStart breaks begins =>
      rw [BlockState.startsLine, if_pos rfl, List.nil_append,
        Yaml.readBlockLines_end (flush rfl) (Nat.succ_ne_zero _) starts,
        blockEnd_chompingFor breaks begins filled]
      rfl

/-! ## Whole blocks -/

theorem getLast?_writeLiteralLines (atStart : Bool) (filled : cs ≠ []) :
    (writeLiteralLines atStart cs).getLast? = cs.getLast? := by
  induction cs generalizing atStart with
  | nil => contradiction
  | cons c cs ih =>
      rw [writeLiteralLines_cons]
      cases cs with
      | nil => cases line : isBreak c <;> simp [writeLiteralLines, literalPart, line]
      | cons next rest =>
          rw [List.getLast?_append, ih _ (List.cons_ne_nil next rest)]
          simp [List.getLast?_cons]

/-- The first line of a block is passed, and so are the empty lines before the text. -/
theorem readBlock_eq (filled : cs ≠ []) (tab : cs.head? ≠ some '\t') (mark : Mark)
    (rest : List Char) :
    readBlock false 0 ⟨mark, indentHint cs ++ chompingHint cs ++
        '\n' :: (writeLiteralLines true cs ++ rest)⟩ =
      readBlockLines ⟨false, chompingFor cs, 2⟩
        (mark.over (indentHint cs ++ chompingHint cs ++ ['\n'])) (.lead false none []) []
        (writeLiteralLines true cs ++ rest) := by
  have passed (mark : Mark) (rest : List Char) :
      (⟨mark, '\n' :: rest⟩ : Cursor).skipLineEnd .malformedBlockHeader =
        .ok ⟨mark.next '\n', rest⟩ := rfl
  have begins (mark : Mark) : (mark.next '\n').column = 0 := rfl
  rw [Mark.over_append _ _ ['\n'], Mark.over_singleton, indentHint_eq, chompingHint_eq_hint,
    readBlock, readBlockHeader_hint]
  simp only [bind, Except.bind, passed]
  cases hinted : isHinted cs with
  | true =>
      exact @readBlockLines_lead ⟨false, chompingFor cs, 2⟩ _ 0 [] [] _
  | false =>
      obtain ⟨c, cs, rfl⟩ := List.exists_cons_of_ne_nil filled
      have solid : isSolid c := by
        simp_all [isHinted, isSpace, isSolid, isBlank]
      have line : isBreak c = false := by
        simp_all [isHinted]
      have lines : writeLiteralLines true (c :: cs) ++ rest =
          innerIndent ++ c :: (writeLiteralLines false cs ++ rest) := by
        simp [writeLiteralLines, line]
      simp only [lines, Bool.false_eq_true, if_false, Option.map_none,
        readBlockLead_indented (begins _) solid]
      exact (@readBlockLines_indent _ ⟨false, chompingFor (c :: cs), 2⟩ rfl (begins _) none [] []
        _ false).2.symm

/-- A text that is written as a literal block is read back, if a line can begin behind it. -/
theorem readBlock_written (filled : cs ≠ []) (tab : cs.head? ≠ some '\t')
    (starts : StartsLine rest) (mark : Mark) :
    readBlock false 0 ⟨mark, indentHint cs ++ chompingHint cs ++
        '\n' :: (endLine (writeLiteralLines true cs) ++ rest)⟩ =
      .ok ⟨cs, ⟨mark.over (indentHint cs ++ chompingHint cs ++
        '\n' :: endLine (writeLiteralLines true cs)), rest⟩⟩ := by
  have nothing : IsAfter (.lead false none []) [] [] :=
    @IsAfter.lead none [] [] false (by simp) fun _ => rfl
  have flush : (mark.over (indentHint cs ++ chompingHint cs ++ ['\n'])).column = 0 := by
    rw [Mark.over_append]
    rfl
  obtain ⟨state, text, after, flush, reads⟩ := @IsAfter.readBlockLines_written [] _
    ⟨false, chompingFor cs, 2⟩ _ _ rfl rfl nothing (fun _ => flush) cs
  rw [List.nil_append] at after
  have ended : endLine (writeLiteralLines true cs) =
      writeLiteralLines true cs ++ if state.startsLine then [] else ['\n'] := by
    rw [endLine, getLast?_writeLiteralLines true filled, after.startsLine_eq filled]
    cases cs.getLast?.any isBreak <;> simp
  have marks : mark.over (indentHint cs ++ chompingHint cs ++ '\n' :: (writeLiteralLines true cs ++
      if state.startsLine then [] else ['\n'])) =
        ((mark.over (indentHint cs ++ chompingHint cs ++ ['\n'])).over
          (writeLiteralLines true cs)).over (if state.startsLine then [] else ['\n']) := by
    simp only [← Mark.over_append]
    simp
  rw [ended, marks, List.append_assoc (writeLiteralLines true cs), readBlock_eq filled tab]
  exact (reads _).trans (after.readBlockLines_end filled flush starts)

end AgentKit.Yaml
