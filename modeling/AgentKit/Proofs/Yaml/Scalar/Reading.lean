/-
# Reading scalars back

Whatever text is written as a scalar behind a colon or a hyphen, one token is read of it, and
the reader stands at the start of the next line again. Which style was chosen does not matter
to what follows. A key that may have begun with the scalar is given up at the end of the line.
-/

import AgentKit.Proofs.Yaml.Scalar.Literal
import AgentKit.Proofs.Yaml.Scalar.Quoted

namespace AgentKit.Yaml

variable {c : Char} {cs rest written : List Char} {mark : Mark}

/-! ## Characters and positions -/

theorem isSettled_of_isPrintable (printable : isPrintable c) : isSettled c := by
  have other := not_mem_of_isPrintable printable
  simp only [List.mem_cons, List.not_mem_nil, or_false, not_or] at other
  simp [isSettled, isAllowed_of_isPrintable printable, other]

namespace Mark

theorem line_le_over (mark : Mark) (cs : List Char) : mark.line ≤ (mark.over cs).line := by
  induction cs generalizing mark with
  | nil => exact Nat.le_refl _
  | cons c cs ih =>
      have first : mark.line ≤ (mark.next c).line := by
        unfold next
        split <;> simp
      exact Nat.le_trans first (ih (mark.next c))

/-- Behind a line break another line begins. -/
theorem over_of_endsLine (ends : cs.getLast?.any isBreak) (mark : Mark) :
    mark.line < (mark.over cs).line ∧ (mark.over cs).column = 0 := by
  rcases List.eq_nil_or_concat cs with rfl | ⟨before, last, rfl⟩
  · contradiction
  · rw [List.concat_eq_append, List.getLast?_concat, Option.any_some] at ends
    rw [List.concat_eq_append, over_append, over_singleton, next, if_pos ends]
    exact ⟨Nat.lt_succ_of_le (line_le_over mark before), rfl⟩

end Mark

/-! ## The state around a scalar -/

namespace TokenReader

variable {produced : List Token} {keyAllowed : Bool} {pending : List (Option PendingKey)}

/-- The state on a line of the block mapping of a document, with keys that may have begun. -/
def onLine (pending : List (Option PendingKey)) (keyAllowed : Bool) (produced : List Token)
    (cursor : Cursor) : TokenReader where
  cursor := cursor
  produced := produced
  pending := pending
  indent := 0
  outer := [-1]
  keyAllowed := keyAllowed

/-- The state in the block mapping of a document where no key has begun. -/
def inBlock (keyAllowed : Bool) (produced : List Token) (cursor : Cursor) : TokenReader :=
  onLine [none] keyAllowed produced cursor

theorem advance_scalar (solid : isSolid c) (hash : c ≠ '#') :
    (inBlock keyAllowed produced ⟨mark, ' ' :: c :: rest⟩).advance =
      .ok (inBlock keyAllowed produced ⟨mark.next ' ', c :: rest⟩) := by
  have passes : passGap false false keyAllowed mark (' ' :: c :: rest) =
      (⟨mark.next ' ', c :: rest⟩, keyAllowed) := by
    rw [passGap]
    simpa [show isBreak ' ' = false from rfl] using
      passGap_solid solid hash fun start => absurd start (Nat.succ_ne_zero _)
  exact advance_eq passes rfl (Int.natCast_nonneg _)

theorem passGap_startsLine {inFlow : Bool} (starts : StartsLine rest) :
    passGap inFlow false keyAllowed mark rest = (⟨mark, rest⟩, keyAllowed) := by
  cases rest with
  | nil => rfl
  | cons c rest =>
      obtain ⟨solid, hash, marked⟩ := starts.isSolid
      exact passGap_solid solid hash fun _ => marked

theorem passGap_lineFeed (starts : StartsLine rest) :
    passGap false false keyAllowed mark ('\n' :: rest) = (⟨mark.next '\n', rest⟩, true) := by
  rw [passGap, if_pos (by decide : isBreak '\n' = true), Bool.not_false, Bool.or_true]
  exact passGap_startsLine starts

/-- A key that may begin with a scalar is given up where the line ends. -/
theorem saveKey_inBlock (later : mark.column ≠ 0) :
    ∃ pending, pending.length = 1 ∧
      (∀ next : Mark, mark.line < next.line → dropStale next pending = .ok [none]) ∧
      (inBlock keyAllowed produced ⟨mark, rest⟩).saveKey =
        .ok (onLine pending keyAllowed produced ⟨mark, rest⟩) := by
  cases keyAllowed with
  | false => exact ⟨[none], rfl, fun _ _ => rfl, rfl⟩
  | true =>
      have inside : ((0 : Int) == (mark.column : Int)) = false :=
        beq_false_of_ne (Int.natCast_ne_zero.mpr later).symm
      refine ⟨[some ⟨false, produced.length, mark⟩], rfl, fun next below => ?_, ?_⟩
      · simp [dropStale, PendingKey.isStale, below, Functor.map, Except.map]
      · simp [saveKey, inBlock, onLine, dropKey, inFlow, column, inside, bind, Except.bind]

theorem not_inFlow_onLine (single : pending.length = 1) (cursor : Cursor) :
    (onLine pending keyAllowed produced cursor).inFlow = false := by
  simp [inFlow, onLine, single]

/-- Behind a scalar the next line begins. -/
theorem advance_onLine {cursor next : Cursor} (single : pending.length = 1)
    (lapses : dropStale next.mark pending = .ok [none])
    (passes : passGap false false keyAllowed cursor.mark cursor.rest = (next, true)) :
    (onLine pending keyAllowed produced cursor).advance = .ok (inBlock true produced next) := by
  refine advance_eq ?_ lapses (Int.natCast_nonneg _)
  rw [not_inFlow_onLine single]
  exact passes

end TokenReader

/-! ## Scalars that are read back -/

/-- A text up to the end of a line is the scalar with a given style and text, wherever a value
can stand in the block mapping of a document. -/
structure IsScalarLine (written : List Char) (style : ScalarStyle) (text : List Char) : Prop where
  settled : ∀ c ∈ written, isSettled c
  ends : written.getLast?.any isBreak
  reads : ∀ keyAllowed produced mark rest, StartsLine rest → ∃ next : TokenReader,
    next.advance = .ok (.inBlock true (.scalar style text :: produced)
      ⟨mark.over (' ' :: written), rest⟩) ∧
    ∀ fuel, (TokenReader.inBlock keyAllowed produced ⟨mark, ' ' :: (written ++ rest)⟩).readAll
      (fuel + 1) = next.readAll fuel

namespace TokenReader

variable {produced : List Token} {keyAllowed : Bool}

/-- A hyphen, a colon or a question mark begins a plain scalar, if a solid character
follows. -/
theorem beginsPlain_of_follows (solid : isSolid c) (indicated : c ∉ leadingIndicators)
    (follows : c ∈ ['?', ':', '-'] → atGap rest = false) : beginsPlain false c rest := by
  by_cases known : c ∈ ['?', ':', '-']
  · have gapless := follows known
    have unblank : rest.head?.any isBlank = false := by
      cases rest with
      | nil => rfl
      | cons d rest => simp_all [atGap, isSolid]
    simp only [List.mem_cons, List.not_mem_nil, or_false] at known
    rcases known with rfl | rfl | rfl <;> simp [beginsPlain, gapless, unblank]
  · have none : c ∉ indicators := by
      simp only [leadingIndicators, indicators, List.mem_cons, List.not_mem_nil, or_false,
        not_or] at indicated known ⊢
      simp [indicated, known]
    simp [beginsPlain, solid, none]

theorem fetchAt_begun (later : mark.column ≠ 0) (solid : isSolid c)
    (indicated : c ∉ leadingIndicators) (follows : c ∈ ['?', ':', '-'] → atGap rest = false) :
    (inBlock keyAllowed produced ⟨mark, c :: rest⟩).fetchAt c rest =
      (inBlock keyAllowed produced ⟨mark, c :: rest⟩).fetchPlain := by
  have later' : (inBlock keyAllowed produced ⟨mark, c :: rest⟩).column ≠ 0 := later
  have outside : (inBlock keyAllowed produced ⟨mark, c :: rest⟩).inFlow = false := rfl
  have begins := beginsPlain_of_follows solid indicated follows
  simp only [leadingIndicators, List.mem_cons, List.not_mem_nil, or_false, not_or] at indicated
  have hyphen : (decide (c = '-') && atGap rest) = false := by
    by_cases same : c = '-' <;> simp [same, follows]
  have mark : (decide (c = '?') && (false || atGap rest)) = false := by
    by_cases same : c = '?' <;> simp [same, follows]
  have colon : (decide (c = ':') && (false || atGap rest)) = false := by
    by_cases same : c = ':' <;> simp [same, follows]
  unfold fetchAt
  simp only [later', indicated, outside, hyphen, mark, colon, begins]
  simp

end TokenReader

open TokenReader

variable {c : Char}

/-- What fits a plain scalar is read back where it is written plainly. -/
theorem FitsPlain.isScalarLine (fits : FitsPlain c cs) :
    IsScalarLine (c :: cs ++ ['\n']) .plain (c :: cs) where
  settled := by
    simp only [List.forall_mem_append, List.forall_mem_singleton]
    exact ⟨fun d member => isSettled_of_isPrintable (fits.inside d member).1, by decide⟩
  ends := by
    rw [List.getLast?_concat]
    rfl
  reads keyAllowed produced mark rest starts := by
    have later : (mark.next ' ').column ≠ 0 := Nat.succ_ne_zero _
    obtain ⟨solid, indicated⟩ := fits.begins
    obtain ⟨pending, single, lapses, saves⟩ := @saveKey_inBlock (c :: cs ++ '\n' :: rest)
      (mark.next ' ') produced keyAllowed later
    have reads : Yaml.readPlain
        ⟨(onLine pending keyAllowed produced ⟨mark.next ' ', c :: cs ++ '\n' :: rest⟩).inFlow, 0 + 1⟩
        (mark.next ' ') .none [] (c :: cs ++ '\n' :: rest) =
          .ok ⟨c :: cs, true, ⟨((mark.next ' ').over (c :: cs)).next '\n', rest⟩⟩ := by
      rw [not_inFlow_onLine single]
      exact fits.readPlain later starts
    have follows : c ∈ ['?', ':', '-'] → atGap (cs ++ '\n' :: rest) = false :=
      fun known => (atGap_append rfl cs).trans (fits.follows known)
    have fetches : (inBlock keyAllowed produced ⟨mark.next ' ', c :: (cs ++ '\n' :: rest)⟩).fetchAt c
        (cs ++ '\n' :: rest) = .ok (onLine pending true (.scalar .plain (c :: cs) :: produced)
          ⟨((mark.next ' ').over (c :: cs)).next '\n', rest⟩) := by
      rw [fetchAt_begun later solid indicated follows]
      exact fetchPlain_eq saves reads
    have shape : c :: cs ++ ['\n'] ++ rest = c :: (cs ++ '\n' :: rest) := by simp
    have hash : c ≠ '#' := fun same => indicated (same ▸ by decide)
    have marks : mark.over (' ' :: (c :: cs ++ ['\n'])) =
        ((mark.next ' ').over (c :: cs)).next '\n' := by
      rw [Mark.over_cons, Mark.over_append]
      rfl
    refine ⟨_, ?_, readAll_succ (shape ▸ advance_scalar solid hash) rfl fetches⟩
    rw [marks]
    exact advance_onLine single (lapses _ (Nat.lt_succ_of_le (Mark.line_le_over _ _)))
      (passGap_startsLine starts)

/-- The quotes, and the styles that they stand for. -/
def quotes : List (Char × ScalarStyle) :=
  [('\'', .singleQuoted), ('"', .doubleQuoted)]

/-- The scalar behind an opening quote. -/
def readQuoted (style : ScalarStyle) (mark : Mark) (cs : List Char) : Except Error TextReading :=
  if style == .singleQuoted then readSingleQuoted mark .none [] cs
  else readDoubleQuoted mark (.text .none) [] cs

variable {quote : Char} {style : ScalarStyle} {body text : List Char}

theorem fetchQuoted_eq {produced : List Token} {keyAllowed : Bool} {reading : TextReading}
    {pending : List (Option PendingKey)}
    (saves : (inBlock keyAllowed produced ⟨mark, c :: rest⟩).saveKey =
      .ok (onLine pending keyAllowed produced ⟨mark, c :: rest⟩))
    (reads : readQuoted style (mark.next c) rest = .ok reading) :
    (inBlock keyAllowed produced ⟨mark, c :: rest⟩).fetchQuoted style =
      .ok (onLine pending false (.scalar style reading.text :: produced) reading.cursor) := by
  unfold readQuoted at reads
  unfold fetchQuoted
  simp only [saves, bind, Except.bind, onLine, Cursor.skip]
  split at reads
  · next single =>
    rw [if_pos single, reads]
    rfl
  · next double =>
    rw [if_neg double, reads]
    rfl

theorem fetchAt_quotes {produced : List Token} {keyAllowed : Bool}
    (known : (quote, style) ∈ quotes) (later : mark.column ≠ 0) :
    (inBlock keyAllowed produced ⟨mark, quote :: rest⟩).fetchAt quote rest =
      (inBlock keyAllowed produced ⟨mark, quote :: rest⟩).fetchQuoted style := by
  have later' : (inBlock keyAllowed produced ⟨mark, quote :: rest⟩).column ≠ 0 := later
  simp only [quotes, List.mem_cons, Prod.mk.injEq, List.not_mem_nil, or_false] at known
  rcases known with ⟨rfl, rfl⟩ | ⟨rfl, rfl⟩ <;> simp [fetchAt, later']

/-- What is read back behind an opening quote, up to the closing one, is read back as a
scalar. -/
theorem isScalarLine_of_quoted (known : (quote, style) ∈ quotes)
    (settled : ∀ c ∈ body, isSettled c)
    (reads : ∀ mark rest, mark.column ≠ 0 →
      readQuoted style mark (body ++ '\n' :: rest) = .ok ⟨text, ⟨mark.over body, '\n' :: rest⟩⟩) :
    IsScalarLine (quote :: body ++ ['\n']) style text where
  settled := by
    simp only [List.cons_append, List.forall_mem_cons, List.forall_mem_append]
    refine ⟨?_, settled, by decide, by simp⟩
    simp only [quotes, List.mem_cons, Prod.mk.injEq, List.not_mem_nil, or_false] at known
    rcases known with ⟨rfl, -⟩ | ⟨rfl, -⟩ <;> decide
  ends := by
    rw [List.getLast?_concat]
    rfl
  reads keyAllowed produced mark rest starts := by
    have later : (mark.next ' ').column ≠ 0 := Nat.succ_ne_zero _
    obtain ⟨solid, hash, line⟩ : isSolid quote ∧ quote ≠ '#' ∧ isBreak quote = false := by
      simp only [quotes, List.mem_cons, Prod.mk.injEq, List.not_mem_nil, or_false] at known
      rcases known with ⟨rfl, -⟩ | ⟨rfl, -⟩ <;> decide
    have inside : ((mark.next ' ').next quote).column ≠ 0 := by simp [Mark.next, line]
    obtain ⟨pending, single, lapses, saves⟩ := @saveKey_inBlock (quote :: (body ++ '\n' :: rest))
      (mark.next ' ') produced keyAllowed later
    have fetches := (@fetchAt_quotes _ _ _ _ produced keyAllowed known later).trans
      (fetchQuoted_eq saves (reads _ rest inside))
    have shape : quote :: body ++ ['\n'] ++ rest = quote :: (body ++ '\n' :: rest) := by simp
    have marks : mark.over (' ' :: (quote :: body ++ ['\n'])) =
        (((mark.next ' ').next quote).over body).next '\n' := by
      rw [Mark.over_cons, Mark.over_append]
      rfl
    refine ⟨_, ?_, readAll_succ (shape ▸ advance_scalar solid hash) rfl fetches⟩
    rw [marks]
    refine advance_onLine single (lapses _ (Nat.lt_succ_of_le ?_)) (passGap_lineFeed starts)
    exact Mark.line_le_over (mark.next ' ') (quote :: body)

/-! ## Every text -/

theorem mem_writeSingleQuotedFrom {afterBreak : Bool}
    (member : c ∈ writeSingleQuotedFrom afterBreak cs) : c = ' ' ∨ c = '\'' ∨ c ∈ cs := by
  induction cs generalizing afterBreak with
  | nil =>
      simp only [writeSingleQuotedFrom, innerIndent] at member
      split at member <;> simp_all
  | cons d cs ih =>
      rw [writeSingleQuotedFrom] at member
      split at member
      · rcases List.mem_cons.mp member with rfl | later
        · simp
        · rcases ih later with space | quote | inside <;> simp [*]
      · simp only [List.mem_append] at member
        rcases member with (indent | first) | later
        · split at indent <;> simp_all [innerIndent]
        · split at first <;> simp_all
        · rcases ih later with space | quote | inside <;> simp [*]

theorem mem_writeLiteralLines {atStart : Bool} (member : c ∈ writeLiteralLines atStart cs) :
    c = ' ' ∨ c ∈ cs := by
  induction cs generalizing atStart with
  | nil => contradiction
  | cons d cs ih =>
      rw [writeLiteralLines_cons, literalPart, List.mem_append] at member
      rcases member with first | later
      · split at first
        · simp_all
        · rcases List.mem_append.mp first with indent | here
          · split at indent <;> simp_all [innerIndent]
          · simp_all
      · rcases ih later with space | inside <;> simp [*]

theorem isScalarLine_singleQuoted (fits : fitsSingleQuotes cs) (feed : '\n' ∉ cs) :
    IsScalarLine (writeSingleQuoted cs ++ ['\n']) .singleQuoted cs := by
  refine isScalarLine_of_quoted (by decide) (fun c member => isSettled_of_isPrintable ?_)
    fun mark rest later => ?_
  · simp only [fitsSingleQuotes, isWritable, Bool.and_eq_true] at fits
    rcases mem_writeSingleQuotedFrom member with rfl | rfl | inside
    · rfl
    · rfl
    · exact List.all_eq_true.mp fits.1.1 c inside
  · exact readSingleQuoted_written fits feed later (by simp)

theorem isScalarLine_doubleQuoted (cs : List Char) :
    IsScalarLine (writeDoubleQuoted cs ++ ['\n']) .doubleQuoted cs := by
  have inside : ∀ c ∈ cs.flatMap doubleQuotedPart ++ ['"'], isInline c := by
    simp only [List.forall_mem_append, List.forall_mem_singleton, List.mem_flatMap]
    refine ⟨?_, by decide⟩
    rintro c ⟨d, -, member⟩
    exact (standsFor_doubleQuotedPart d).inline c member
  refine isScalarLine_of_quoted (by decide)
    (fun c member => isSettled_of_isInline (inside c member)) fun mark rest later => ?_
  rw [List.append_assoc]
  exact readDoubleQuoted_written cs later _

theorem fetchBlock_eq {produced : List Token} {keyAllowed : Bool} {cursor : Cursor}
    {reading : BlockReading} (reads : readBlock false 0 cursor.skip = .ok reading) :
    (inBlock keyAllowed produced cursor).fetchBlock .literal =
      .ok (inBlock true (.scalar .literal reading.text :: produced) reading.cursor) := by
  unfold fetchBlock
  simp only [dropKey, inBlock, onLine, bind, Except.bind]
  rw [show (ScalarStyle.literal == .folded) = false from rfl, reads]
  rfl

theorem fetchAt_bar {produced : List Token} {keyAllowed : Bool} (later : mark.column ≠ 0) :
    (inBlock keyAllowed produced ⟨mark, '|' :: rest⟩).fetchAt '|' rest =
      (inBlock keyAllowed produced ⟨mark, '|' :: rest⟩).fetchBlock .literal := by
  have later' : (inBlock keyAllowed produced ⟨mark, '|' :: rest⟩).column ≠ 0 := later
  have outside : (inBlock keyAllowed produced ⟨mark, '|' :: rest⟩).inFlow = false := rfl
  simp [fetchAt, later', outside]

theorem endLine_eq_append (inside : cs.getLast?.any isBreak = false) :
    endLine cs = cs ++ ['\n'] := by
  rw [endLine, if_neg (by simp [inside])]

theorem endLine_append (before : List Char) (filled : cs ≠ []) :
    endLine (before ++ cs) = before ++ endLine cs := by
  rw [endLine, endLine, List.getLast?_append, List.getLast?_eq_some_getLast filled, Option.some_or]
  split <;> simp

theorem mem_endLine (member : c ∈ endLine cs) : c ∈ cs ∨ c = '\n' := by
  unfold endLine at member
  split at member
  · exact .inl member
  · simpa using member

theorem endsLine_endLine (cs : List Char) : (endLine cs).getLast?.any isBreak := by
  unfold endLine
  split
  · assumption
  · rw [List.getLast?_concat]
    rfl

theorem getLast?_writeSingleQuotedFrom (afterBreak : Bool) (cs : List Char) :
    (writeSingleQuotedFrom afterBreak cs).getLast? = some '\'' := by
  induction cs generalizing afterBreak with
  | nil => simp [writeSingleQuotedFrom]
  | cons c cs ih =>
      rw [writeSingleQuotedFrom]
      split
      · simp [List.getLast?_cons, ih]
      · simp [List.getLast?_append, ih]

theorem endLine_writeSingleQuoted (cs : List Char) :
    endLine (writeSingleQuoted cs) = writeSingleQuoted cs ++ ['\n'] := by
  refine endLine_eq_append ?_
  rw [writeSingleQuoted, List.getLast?_cons, getLast?_writeSingleQuotedFrom]
  rfl

theorem endLine_writeDoubleQuoted (cs : List Char) :
    endLine (writeDoubleQuoted cs) = writeDoubleQuoted cs ++ ['\n'] := by
  refine endLine_eq_append ?_
  rw [writeDoubleQuoted, ← List.cons_append, List.getLast?_concat]
  rfl

theorem writeLiteral_eq (cs : List Char) :
    writeLiteral cs =
      '|' :: (indentHint cs ++ chompingHint cs ++ ['\n']) ++ writeLiteralLines true cs := by
  simp [writeLiteral]

theorem isScalarLine_literal (fits : fitsLiteral cs) (filled : cs ≠ []) :
    IsScalarLine (endLine (writeLiteral cs)) .literal cs := by
  simp only [fitsLiteral, isWritable, Bool.and_eq_true] at fits
  have printable : ∀ c ∈ cs, isPrintable c := List.all_eq_true.mp fits.1.1
  have lines : writeLiteralLines true cs ≠ [] := by
    intro none
    have last := getLast?_writeLiteralLines true filled
    rw [none] at last
    exact filled (List.getLast?_eq_none_iff.mp last.symm)
  have tab : cs.head? ≠ some '\t' := fun begins =>
    absurd (printable '\t' (List.mem_of_head? begins)) (by decide)
  have written : endLine (writeLiteral cs) =
      '|' :: (indentHint cs ++ chompingHint cs ++ '\n' :: endLine (writeLiteralLines true cs)) := by
    rw [writeLiteral_eq, endLine_append _ lines]
    simp
  refine ⟨fun c member => isSettled_of_isPrintable ?_, endsLine_endLine _,
    fun keyAllowed produced mark rest starts => ?_⟩
  · have hints : ∀ c ∈ indentHint cs ++ chompingHint cs, isPrintable c := by
      rw [indentHint_eq, chompingHint_eq_hint]
      cases isHinted cs <;> cases chompingFor cs <;> decide
    rcases mem_endLine member with inside | rfl
    · rw [writeLiteral_eq, List.mem_append, List.mem_cons, List.mem_append] at inside
      rcases inside with (rfl | hint | feed) | line
      · rfl
      · exact hints c hint
      · rw [List.mem_singleton.mp feed]
        rfl
      · rcases mem_writeLiteralLines line with rfl | inside
        · rfl
        · exact printable c inside
    · rfl
  · have fetches := @fetchBlock_eq produced keyAllowed ⟨mark.next ' ', '|' :: _⟩ _
      (readBlock_written filled tab starts ((mark.next ' ').next '|'))
    have shape : '|' :: (indentHint cs ++ chompingHint cs ++
        '\n' :: endLine (writeLiteralLines true cs)) ++ rest =
          '|' :: (indentHint cs ++ chompingHint cs ++
            '\n' :: (endLine (writeLiteralLines true cs) ++ rest)) := by simp
    rw [written, shape]
    exact ⟨_, advance_onLine rfl rfl (passGap_startsLine starts),
      readAll_succ (advance_scalar (by decide) (by decide)) rfl
        ((fetchAt_bar (Nat.succ_ne_zero _)).trans fetches)⟩

/-! ## The choice of a style -/

theorem of_styleOf_eq_plain (chosen : styleOf cs = .plain) :
    isAmbiguous cs = false ∧ fitsPlain cs := by
  unfold styleOf at chosen
  split at chosen
  · split at chosen <;> contradiction
  · split at chosen
    · simp_all
    · split at chosen <;> contradiction

theorem of_styleOf_eq_singleQuoted (chosen : styleOf cs = .singleQuoted) :
    '\n' ∉ cs ∧ fitsSingleQuotes cs := by
  unfold styleOf at chosen
  split at chosen
  · split at chosen <;> contradiction
  · split at chosen
    · contradiction
    · split at chosen
      · simp_all
      · contradiction

theorem of_styleOf_eq_literal (chosen : styleOf cs = .literal) : '\n' ∈ cs ∧ fitsLiteral cs := by
  unfold styleOf at chosen
  split at chosen
  · split at chosen
    · simp_all
    · contradiction
  · split at chosen
    · contradiction
    · split at chosen <;> contradiction

theorem styleOf_ne_folded (cs : List Char) : styleOf cs ≠ .folded := by
  unfold styleOf
  split
  · split <;> simp
  · split
    · simp
    · split <;> simp

/-- What is written plainly means a text, and is not empty. -/
theorem meaningOf_of_styleOf_eq_plain (chosen : styleOf cs = .plain) :
    meaningOf cs = .text := by
  have clear := (of_styleOf_eq_plain chosen).1
  simp only [isAmbiguous, Bool.or_eq_false_iff, bne_eq_false_iff_eq] at clear
  exact clear.1

theorem writeScalar_ne_nil (cs : List Char) : writeScalar cs ≠ [] := by
  unfold writeScalar
  cases chosen : styleOf cs with
  | plain =>
      rintro rfl
      contradiction
  | _ => simp [writeSingleQuoted, writeDoubleQuoted, writeLiteral]

/-- Any text that is written as a scalar is read back as what it is. -/
theorem isScalarLine_writeScalar (cs : List Char) :
    IsScalarLine (endLine (writeScalar cs)) (styleOf cs) cs := by
  unfold writeScalar
  cases chosen : styleOf cs with
  | plain =>
      have means := meaningOf_of_styleOf_eq_plain chosen
      obtain ⟨c, cs, rfl⟩ := List.exists_cons_of_ne_nil (show cs ≠ [] by rintro rfl; contradiction)
      have fits := fitsPlain_of_fitsPlain (of_styleOf_eq_plain chosen).2
      have inside : (c :: cs).getLast?.any isBreak = false := by
        have last := fits.ends
        simp only [isSolid, Bool.and_eq_true, Bool.not_eq_true'] at last
        rw [List.getLast?_cons, Option.any_some, last.2]
      rw [show endLine (c :: cs) = c :: cs ++ ['\n'] from endLine_eq_append inside]
      exact fits.isScalarLine
  | singleQuoted =>
      obtain ⟨feed, fits⟩ := of_styleOf_eq_singleQuoted chosen
      rw [show endLine (writeSingleQuoted cs) = _ from endLine_writeSingleQuoted cs]
      exact isScalarLine_singleQuoted fits feed
  | doubleQuoted =>
      rw [show endLine (writeDoubleQuoted cs) = _ from endLine_writeDoubleQuoted cs]
      exact isScalarLine_doubleQuoted cs
  | literal =>
      obtain ⟨feed, fits⟩ := of_styleOf_eq_literal chosen
      exact isScalarLine_literal fits (List.ne_nil_of_mem feed)
  | folded => exact absurd chosen (styleOf_ne_folded cs)

end AgentKit.Yaml
