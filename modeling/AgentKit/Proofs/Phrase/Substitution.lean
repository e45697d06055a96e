/-
# Filling places one after the other and at once

The arguments of a phrase are filled in one after the other. That comes to the same as filling
all places at once if no step makes a place for a later argument: not inside a value, and not
where a value meets what stands around it.

The first is a condition on the arguments that nothing else can replace. The second holds by
itself if the text has a single place, as every wording has. A text with more places must not
have one inside the braces of another, and then a place that reaches over the edge of a value
would have to close in a name or to be open at the end of the value.

The invariant of the run is the relation between the text and what has become of it so far.
Which of its characters have come in with values is read off the text, so nothing has to be
marked.
-/

import AgentKit.Proofs.Phrase.Filling
import Mathlib.Data.List.Infix
import Mathlib.Data.List.Nodup

namespace AgentKit.Phrase

variable {arguments done : List (String × String)} {cs text filled value before after : List Char}
  {name : String}

/-- The place of a name. -/
def place (name : String) : List Char :=
  '\x7b' :: (name.toList ++ ['\x7d'])

/-- A text with all places of some arguments filled at once. From left to right, a place is
replaced by its value, which is not looked at again, and a character at which no place begins is
kept. -/
inductive IsFilled (arguments : List (String × String)) : List Char → List Char → Prop where
  | nil : IsFilled arguments [] []
  | replaced {name value : String} {text filled : List Char}
    (argument : (name, value) ∈ arguments) (rest : IsFilled arguments text filled) :
    IsFilled arguments (place name ++ text) (value.toList ++ filled)
  | kept {c : Char} {text filled : List Char}
    (none_here : ∀ argument ∈ arguments, ¬ place argument.1 <+: c :: text)
    (rest : IsFilled arguments text filled) : IsFilled arguments (c :: text) (c :: filled)

/-- Behind every opening brace stands a closing one. -/
def IsClosed (cs : List Char) : Prop :=
  ∀ rest, '\x7b' :: rest <:+ cs → '\x7d' ∈ rest

/-- Every opening brace is closed before the next one opens. Only the last one may stay open. -/
def IsFlat (cs : List Char) : Prop :=
  ∀ rest, '\x7b' :: rest <:+ cs → '\x7b' ∉ rest.takeWhile (· ≠ '\x7d')

/-- No place reaches over the edge of a value: the text has a single closing brace, or else no
name has one, and no value ends with an open brace. -/
def IsUnambiguous (arguments : List (String × String)) (text : List Char) : Prop :=
  text.count '\x7d' ≤ 1 ∨
    ∀ argument ∈ arguments, '\x7d' ∉ argument.1.toList ∧ IsClosed argument.2.toList

/-- No value has a place of a later argument in it. -/
def IsInOrder (arguments : List (String × String)) : Prop :=
  arguments.Pairwise fun argument later => ¬ place later.1 <:+: argument.2.toList

instance decidableForallSuffix {α : Type} [DecidableEq α] (p : List α → Prop) [DecidablePred p]
    (x : α) (xs : List α) : Decidable (∀ rest, x :: rest <:+ xs → p rest) :=
  decidable_of_iff (∀ rest ∈ xs.tails, ∀ y ∈ rest.head?, y = x → p rest.tail) <| by
    constructor
    · intro holds rest ends
      exact holds _ ((List.mem_tails _ _).mpr ends) x rfl rfl
    · rintro holds (_ | ⟨y, rest⟩) ends z first rfl
      · simp at first
      · obtain rfl : y = z := by simpa using first
        exact holds rest ((List.mem_tails _ _).mp ends)

instance : DecidablePred IsClosed := fun _ => inferInstanceAs (Decidable (∀ _, _ → _))

instance : DecidablePred IsFlat := fun _ => inferInstanceAs (Decidable (∀ _, _ → _))

instance (arguments : List (String × String)) (text : List Char) :
    Decidable (IsUnambiguous arguments text) :=
  inferInstanceAs (Decidable (_ ∨ _))

instance : DecidablePred IsInOrder :=
  fun arguments => inferInstanceAs (Decidable (arguments.Pairwise _))

/-! ## Braces -/

theorem fillPlace_eq (cs : List Char) (name value : String) :
    fillPlace cs name value = Text.replaceAll (place name) value.toList cs := rfl

theorem place_append (name : String) (rest : List Char) :
    place name ++ rest = '\x7b' :: (name.toList ++ '\x7d' :: rest) := by
  simp [place]

/-- Where the first closing brace stands is decided by what is known to have none. -/
theorem eq_of_append_closing {first second rest rest' : List Char}
    (same : first ++ '\x7d' :: rest = second ++ '\x7d' :: rest') (clear : '\x7d' ∉ first)
    (clear' : '\x7d' ∉ second ∨ '\x7d' ∉ rest) : first = second ∧ rest = rest' := by
  rcases List.append_eq_append_iff.mp same with ⟨more, longer, tail⟩ | ⟨more, longer, tail⟩
  · cases more with
    | nil => simp_all
    | cons c more =>
        obtain ⟨rfl, rfl⟩ := List.cons.inj tail
        rw [longer] at clear'
        simp at clear'
  · cases more with
    | nil => simp_all
    | cons c more =>
        obtain ⟨rfl, -⟩ := List.cons.inj tail
        rw [longer] at clear
        simp at clear

theorem IsFlat.of_suffix (flat : IsFlat cs) (ends : text <:+ cs) : IsFlat text :=
  fun rest behind => flat rest (behind.trans ends)

/-- Up to its closing brace, nothing opens behind an opening brace. -/
theorem IsFlat.not_mem_of_append (flat : IsFlat ('\x7b' :: (before ++ after)))
    (clear : '\x7d' ∉ before) : '\x7b' ∉ before := by
  intro opens
  apply flat (before ++ after) (List.suffix_refl _)
  have kept : ∀ c ∈ before, decide (c ≠ '\x7d') = true := by
    intro c inside
    exact decide_eq_true fun closes => clear (closes ▸ inside)
  rw [List.takeWhile_append_of_pos kept]
  exact List.mem_append_left _ opens

theorem IsUnambiguous.of_suffix (clear : IsUnambiguous arguments cs) (ends : text <:+ cs) :
    IsUnambiguous arguments text :=
  clear.imp_left (ends.sublist.count_le '\x7d').trans

/-- What stands in a text before the closing brace of a place has no other one. -/
theorem IsUnambiguous.not_mem_name (clear : IsUnambiguous arguments text)
    {argument : String × String} (member : argument ∈ arguments)
    (begins : argument.1.toList ++ '\x7d' :: after <:+ text) : '\x7d' ∉ argument.1.toList := by
  rcases clear.of_suffix begins with few | proper
  · intro closes
    have count := List.count_pos_iff.mpr closes
    rw [List.count_append, List.count_cons_self] at few
    omega
  · exact (proper argument member).1

/-- No other place opens in a place. -/
theorem IsFlat.not_mem_name {argument : String × String}
    (flat : IsFlat ('\x7b' :: (argument.1.toList ++ '\x7d' :: after)))
    (clear : IsUnambiguous arguments (argument.1.toList ++ '\x7d' :: after))
    (member : argument ∈ arguments) : '\x7b' ∉ argument.1.toList ++ ['\x7d'] := by
  have inner := flat.not_mem_of_append (clear.not_mem_name member (List.suffix_refl _))
  simpa using inner

/-! ## What is kept -/

namespace IsFilled

/-- What has no opening brace is kept. -/
theorem exists_of_append (clear : '\x7b' ∉ before)
    (fills : IsFilled arguments (before ++ text) filled) :
    ∃ rest, filled = before ++ rest ∧ IsFilled arguments text rest := by
  induction before generalizing filled with
  | nil => exact ⟨filled, rfl, fills⟩
  | cons c before ih =>
      rw [List.mem_cons, not_or] at clear
      rw [List.cons_append] at fills
      generalize whole : c :: (before ++ text) = cs at fills
      cases fills with
      | nil => exact absurd whole (List.cons_ne_nil _ _)
      | replaced argument rest =>
          rw [place_append] at whole
          exact absurd (List.cons.inj whole).1.symm clear.1
      | kept none_here rest =>
          obtain ⟨rfl, rfl⟩ := List.cons.inj whole
          obtain ⟨behind, rfl, fills⟩ := ih clear.2 rest
          exact ⟨behind, rfl, fills⟩

/-- What has no closing brace is kept. -/
theorem eq_of_not_mem (clear : '\x7d' ∉ text) (fills : IsFilled arguments text filled) :
    filled = text := by
  induction fills with
  | nil => rfl
  | replaced argument rest =>
      rw [place_append] at clear
      simp at clear
  | kept none_here rest ih => rw [ih (List.not_mem_of_not_mem_cons clear)]

/-- Without arguments everything is kept. -/
theorem refl (text : List Char) : IsFilled [] text text := by
  induction text with
  | nil => exact .nil
  | cons c text ih => exact .kept (by simp) ih

end IsFilled

/-! ## One more argument -/

/-- A place that begins in a text ends in it, or only its name has begun there. -/
theorem place_isPrefix_append {c : Char} (begins : place name <+: c :: (value ++ filled)) :
    place name <+: c :: value ∨
      c = '\x7b' ∧ ∃ more rest, name.toList = value ++ more ∧ filled = more ++ '\x7d' :: rest := by
  obtain ⟨rest, whole⟩ := begins
  rw [place_append] at whole
  obtain ⟨rfl, inner⟩ := List.cons.inj whole
  rcases List.append_eq_append_iff.mp inner with ⟨more, longer, tail⟩ | ⟨more, shorter, tail⟩
  · cases more with
    | nil => exact .inr ⟨rfl, [], rest, by simpa using longer.symm, tail.symm⟩
    | cons c more =>
        obtain ⟨rfl, -⟩ := List.cons.inj tail
        exact .inl ⟨more, by rw [place_append, longer]⟩
  · exact .inr ⟨rfl, more, rest, shorter, tail⟩

/-- A value is left alone when a place is filled behind it, if it does not have that place and the
place does not begin in it and end behind it. -/
theorem fillPlace_append_of_apart {value' : String} (apart : ¬ place name <:+: value)
    (edge : '\x7d' ∉ filled ∨ '\x7d' ∉ name.toList ∧ IsClosed value) :
    fillPlace (value ++ filled) name value' = value ++ fillPlace filled name value' := by
  induction value with
  | nil => rfl
  | cons c value ih =>
      have other : ¬ place name <+: c :: (value ++ filled) := by
        intro begins
        rcases place_isPrefix_append begins with within | ⟨rfl, more, rest, named, behind⟩
        · exact apart within.isInfix
        · rcases edge with clear | ⟨clear, closed⟩
          · simp [behind] at clear
          · have closes : '\x7d' ∈ value := closed value (List.suffix_refl _)
            exact clear (named ▸ List.mem_append_left more closes)
      have inner := ih (fun within => apart (within.trans (List.suffix_cons c value).isInfix))
        (edge.imp_right fun ⟨clear, closed⟩ =>
          ⟨clear, fun rest ends => closed rest (ends.trans (List.suffix_cons c value))⟩)
      rw [List.cons_append, fillPlace_eq, Text.replaceAll_of_not_isPrefix other, ← fillPlace_eq,
        inner, List.cons_append]

namespace IsFilled

variable {next : String × String}

/-- Behind an opening brace that is kept, a name and its closing brace stand in the filled text
only if they stood in the text. -/
theorem exists_of_closing (flat : IsFlat ('\x7b' :: text))
    (clear : IsUnambiguous (done ++ [next]) text)
    (fills : IsFilled done text (next.1.toList ++ '\x7d' :: filled)) :
    ∃ rest, text = next.1.toList ++ '\x7d' :: rest := by
  by_cases closes : '\x7d' ∈ text
  · obtain ⟨inner, rest, rfl, first⟩ := List.eq_append_cons_of_mem closes
    have kept : '\x7b' ∉ inner ++ ['\x7d'] := by
      simpa using flat.not_mem_of_append first
    rw [List.append_cons] at fills
    obtain ⟨behind, same, fills⟩ := fills.exists_of_append kept
    rw [← List.append_cons] at same
    have first' : '\x7d' ∉ next.1.toList ∨ '\x7d' ∉ behind := by
      rcases clear with few | proper
      · have none_left : '\x7d' ∉ rest := by
          rw [List.count_append, List.count_cons_self] at few
          exact List.count_eq_zero.mp (by omega)
        exact .inr (fills.eq_of_not_mem none_left ▸ none_left)
      · exact .inl (proper next (by simp)).1
    exact ⟨rest, by rw [(eq_of_append_closing same.symm first first').1]⟩
  · exact ⟨filled, (fills.eq_of_not_mem closes).symm⟩

/-- The next place begins at a character that is kept if and only if it did so in the text. -/
theorem place_isPrefix_iff {c : Char} (flat : IsFlat (c :: text))
    (clear : IsUnambiguous (done ++ [next]) text) (rest : IsFilled done text filled) :
    place next.1 <+: c :: filled ↔ place next.1 <+: c :: text := by
  constructor
  · rintro ⟨behind, whole⟩
    rw [place_append] at whole
    obtain ⟨rfl, rfl⟩ := List.cons.inj whole
    obtain ⟨text, rfl⟩ := rest.exists_of_closing flat clear
    exact ⟨text, by rw [place_append]⟩
  · rintro ⟨behind, whole⟩
    rw [place_append] at whole
    obtain ⟨rfl, rfl⟩ := List.cons.inj whole
    rw [List.append_cons] at rest
    obtain ⟨others, rfl, -⟩ := rest.exists_of_append (flat.not_mem_name clear (by simp))
    exact ⟨others, by simp [place]⟩

/-- The next place does not begin in a value and end behind it. -/
theorem not_mem_or_isClosed {value : String} (clear : IsUnambiguous (done ++ [next])
    (place name ++ text)) (argument : (name, value) ∈ done) (rest : IsFilled done text filled) :
    '\x7d' ∉ filled ∨ '\x7d' ∉ next.1.toList ∧ IsClosed value.toList := by
  rcases clear with few | proper
  · left
    have none_left : '\x7d' ∉ text := by
      rw [place_append, List.count_cons, List.count_append, List.count_cons_self] at few
      exact List.count_eq_zero.mp (by omega)
    exact rest.eq_of_not_mem none_left ▸ none_left
  · exact .inr ⟨(proper next (by simp)).1,
      (proper (name, value) (List.mem_append_left _ argument)).2⟩

/-- Where the next place begins in a text, its value comes into what the earlier arguments have
left, if it does so with what stands behind the opening brace. -/
theorem fill_place (flat : IsFlat (place next.1 ++ text))
    (clear : IsUnambiguous (done ++ [next]) (next.1.toList ++ '\x7d' :: text))
    (rest : IsFilled done (next.1.toList ++ '\x7d' :: text) filled)
    (later : IsFilled (done ++ [next]) (next.1.toList ++ '\x7d' :: text)
      (fillPlace filled next.1 next.2)) :
    IsFilled (done ++ [next]) (place next.1 ++ text)
      (fillPlace ('\x7b' :: filled) next.1 next.2) := by
  have member : next ∈ done ++ [next] := by simp
  rw [place_append] at flat
  have plain := flat.not_mem_name clear member
  rw [List.append_cons next.1.toList] at rest later
  obtain ⟨behind, rfl, -⟩ := rest.exists_of_append plain
  have moved : fillPlace (next.1.toList ++ ['\x7d'] ++ behind) next.1 next.2 =
      next.1.toList ++ ['\x7d'] ++ fillPlace behind next.1 next.2 :=
    Text.replaceAll_append_of_notMem plain _ _ _
  rw [moved] at later
  obtain ⟨others, same, fills⟩ := later.exists_of_append plain
  obtain rfl := List.append_cancel_left same
  have here : fillPlace ('\x7b' :: (next.1.toList ++ ['\x7d'] ++ behind)) next.1 next.2 =
      next.2.toList ++ fillPlace behind next.1 next.2 :=
    Text.replaceAll_append (List.cons_ne_nil _ _) _ _
  rw [here]
  exact .replaced member fills

/-- The next argument is filled into what the earlier ones have left of a text, and then all of
them are filled in. -/
theorem fill_next (flat : IsFlat text) (clear : IsUnambiguous (done ++ [next]) text)
    (apart : ∀ argument ∈ done, ¬ place next.1 <:+: argument.2.toList)
    (fills : IsFilled done text filled) :
    IsFilled (done ++ [next]) text (fillPlace filled next.1 next.2) := by
  induction fills with
  | nil => exact .nil
  | @replaced name value text filled argument rest ih =>
      have ends : text <:+ place name ++ text := List.suffix_append _ _
      have edge := rest.not_mem_or_isClosed clear argument
      rw [fillPlace_append_of_apart (apart _ argument) edge]
      exact .replaced (List.mem_append_left _ argument)
        (ih (flat.of_suffix ends) (clear.of_suffix ends))
  | @kept c text filled none_here rest ih =>
      have ends : text <:+ c :: text := List.suffix_cons c text
      have clear' := clear.of_suffix ends
      have later := ih (flat.of_suffix ends) clear'
      by_cases begins : place next.1 <+: c :: text
      · obtain ⟨text, whole⟩ := begins
        rw [← whole] at flat ⊢
        rw [place_append] at whole
        obtain ⟨rfl, rfl⟩ := List.cons.inj whole
        exact fill_place flat clear' rest later
      · have other := mt (place_isPrefix_iff flat clear' rest).mp begins
        have stays : fillPlace (c :: filled) next.1 next.2 =
            c :: fillPlace filled next.1 next.2 := Text.replaceAll_of_not_isPrefix other _
        rw [stays]
        exact .kept (List.forall_mem_append.mpr
          ⟨none_here, List.forall_mem_singleton.mpr begins⟩) later

/-- Filling in the arguments one after the other fills all of them in at once. -/
theorem foldl (flat : IsFlat text) (clear : IsUnambiguous (done ++ arguments) text)
    (order : IsInOrder (done ++ arguments)) (fills : IsFilled done text filled) :
    IsFilled (done ++ arguments) text
      (arguments.foldl (fun text (name, value) => fillPlace text name value) filled) := by
  induction arguments generalizing done filled with
  | nil => rwa [List.append_nil]
  | cons next arguments ih =>
      rw [List.append_cons] at clear order ⊢
      have begun := (List.pairwise_append.mp order).1
      have apart : ∀ argument ∈ done, ¬ place next.1 <:+: argument.2.toList := by
        intro argument member
        exact (List.pairwise_append.mp begun).2.2 argument member next (List.mem_singleton_self next)
      have clear' : IsUnambiguous (done ++ [next]) text :=
        clear.imp_right fun proper argument member =>
          proper argument (List.mem_append_left arguments member)
      exact ih clear order (fills.fill_next flat clear' apart)

/-- Only which arguments there are counts for filling them in at once. -/
theorem of_mem_iff {others : List (String × String)}
    (same : ∀ argument, argument ∈ others ↔ argument ∈ arguments)
    (fills : IsFilled others text filled) : IsFilled arguments text filled := by
  induction fills with
  | nil => exact .nil
  | replaced argument _ ih => exact .replaced ((same _).mp argument) ih
  | kept none_here _ ih =>
      exact .kept (fun argument member => none_here argument ((same _).mpr member)) ih

/-- Filling in at once has one result. -/
theorem unique (distinct : (arguments.map Prod.fst).Nodup) (clear : IsUnambiguous arguments text)
    {filled' : List Char} (fills : IsFilled arguments text filled)
    (fills' : IsFilled arguments text filled') : filled = filled' := by
  induction fills generalizing filled' with
  | nil =>
      generalize whole : [] = cs at fills'
      cases fills' with
      | nil => rfl
      | replaced => simp [place] at whole
      | kept => exact absurd whole.symm (List.cons_ne_nil _ _)
  | @replaced name value text filled argument rest ih =>
      have ends (name : String) (text : List Char) :
          name.toList ++ '\x7d' :: text <:+ place name ++ text := by
        rw [place_append]
        exact List.suffix_cons _ _
      have first := clear.not_mem_name argument (ends name text)
      generalize whole : place name ++ text = cs at fills' clear
      cases fills' with
      | nil => simp [place] at whole
      | @replaced name' value' text' filled' argument' rest' =>
          have first' := clear.not_mem_name argument' (ends name' text')
          rw [place_append, place_append] at whole
          obtain ⟨named, rfl⟩ :=
            eq_of_append_closing (List.cons.inj whole).2 first (.inl first')
          obtain rfl : name = name' := String.toList_inj.mp named
          obtain rfl : value = value' :=
            congrArg Prod.snd (List.inj_on_of_nodup_map distinct argument argument' rfl)
          rw [ih (clear.of_suffix (List.suffix_append _ _)) rest']
      | kept none_here _ => exact absurd ⟨text, whole⟩ (none_here _ argument)
  | @kept c text filled none_here rest ih =>
      generalize whole : c :: text = cs at fills'
      cases fills' with
      | nil => exact absurd whole (List.cons_ne_nil _ _)
      | @replaced _ _ text' _ argument' _ =>
          exact absurd ⟨text', whole.symm⟩ (none_here _ argument')
      | kept _ rest' =>
          obtain ⟨rfl, rfl⟩ := List.cons.inj whole
          rw [ih (clear.of_suffix (List.suffix_cons _ _)) rest']

end IsFilled

/-! ## Phrases -/

/-- A wording has at most one place. -/
theorem isFlat_wording (locale : Locale) (phrase : Phrase) :
    IsFlat (phrase.wording locale).toList ∧ (phrase.wording locale).toList.count '\x7d' ≤ 1 := by
  cases locale <;> cases phrase <;> decide +kernel

theorem isFlat_lookup {key : String} (locale : Locale)
    (clear : ofKey? key = none → IsFlat key.toList ∧ IsUnambiguous arguments key.toList) :
    IsFlat (lookup locale key).toList ∧ IsUnambiguous arguments (lookup locale key).toList := by
  rw [lookup]
  split
  · next phrase _ =>
      have single := isFlat_wording locale phrase
      exact ⟨single.1, .inl single.2⟩
  · next unknown => exact clear unknown

theorem isFilled_fill (flat : IsFlat text) (clear : IsUnambiguous arguments text)
    (order : IsInOrder arguments) :
    IsFilled arguments text (fill (String.ofList text) arguments).toList := by
  rw [fill, String.toList_ofList, String.toList_ofList]
  change IsFilled ([] ++ arguments) text _
  exact IsFilled.foldl flat clear order (.refl text)

/-- If no value has a place of a later argument in it, the places of a phrase are filled with the
arguments at once, and every order of which that is true has this result. The same holds of a text
that stands for itself, if its braces are not nested and no place reaches over the edge of a
value. -/
theorem filled_at_once (locale : Locale) (key : String)
    (distinct : (arguments.map Prod.fst).Nodup) (order : IsInOrder arguments)
    (clear : ofKey? key = none → IsFlat key.toList ∧ IsUnambiguous arguments key.toList) :
    (∀ result : String, IsFilled arguments (lookup locale key).toList result.toList ↔
      result = fill (lookup locale key) arguments) ∧
    ∀ others : List (String × String), others.Perm arguments → IsInOrder others →
      fill (lookup locale key) others = fill (lookup locale key) arguments := by
  obtain ⟨flat, unambiguous⟩ := isFlat_lookup locale clear
  have fills := isFilled_fill flat unambiguous order
  rw [String.ofList_toList] at fills
  have only (result : String)
      (fills' : IsFilled arguments (lookup locale key).toList result.toList) :
      result = fill (lookup locale key) arguments :=
    String.toList_inj.mp (fills'.unique distinct unambiguous fills)
  refine ⟨fun result => ⟨only result, fun same => same ▸ fills⟩, fun others permuted order' => ?_⟩
  have unambiguous' : IsUnambiguous others (lookup locale key).toList :=
    unambiguous.imp_right fun proper argument member =>
      proper argument (permuted.mem_iff.mp member)
  have fills' := isFilled_fill flat unambiguous' order'
  rw [String.ofList_toList] at fills'
  exact only _ (fills'.of_mem_iff fun _ => permuted.mem_iff)

/-- Arguments with values that look like places, of no argument or of an earlier one. -/
def placedArguments : List (String × String) :=
  [("first", "\x7bthird\x7d"), ("second", "\x7bfirst\x7d"), ("last", "")]

/-- In a text with two places, these values stay as they are, also if the last argument comes
first. -/
theorem filled_at_once_placed :
    (placedArguments.map Prod.fst).Nodup ∧ IsInOrder placedArguments ∧
      IsFilled placedArguments "\x7bfirst\x7d, \x7bsecond\x7d".toList
        "\x7bthird\x7d, \x7bfirst\x7d".toList ∧
      fill (lookup .english "\x7bfirst\x7d, \x7bsecond\x7d")
        (("last", "") :: placedArguments.take 2) = "\x7bthird\x7d, \x7bfirst\x7d" := by
  have distinct : (placedArguments.map Prod.fst).Nodup := by decide
  have order : IsInOrder placedArguments := by decide +kernel
  obtain ⟨filled, reordered⟩ := filled_at_once .english "\x7bfirst\x7d, \x7bsecond\x7d"
    distinct order (by decide +kernel)
  have result : fill (lookup .english "\x7bfirst\x7d, \x7bsecond\x7d") placedArguments =
      "\x7bthird\x7d, \x7bfirst\x7d" := by decide +kernel
  refine ⟨distinct, order, (filled _).mpr result.symm, ?_⟩
  rw [reordered _ (by decide) (by decide +kernel), result]

/-- Arguments of which the first has the place of the second in its value. -/
def crossedArguments : List (String × String) :=
  [("tools", "\x7bcount\x7d"), ("count", "2")]

/-- A value with the place of a later argument does not stay as it is, and so the order of the
arguments matters. It matters without such a value too, in a text that stands for itself: where
one place is inside the braces of another, where a value ends with an open brace, and where a
name has a closing one. -/
theorem filled_in_turn :
    (crossedArguments.map Prod.fst).Nodup ∧
      fill (lookup .english "install.installing") crossedArguments =
        "Installing agents for: 2" ∧
      ¬ IsFilled crossedArguments (lookup .english "install.installing").toList
        "Installing agents for: 2".toList ∧
      fill (lookup .english "install.installing") crossedArguments.reverse =
        "Installing agents for: \x7bcount\x7d" ∧
      fill (lookup .english "\x7b\x7ba\x7d\x7d") [("a", "b"), ("b", "c")] ≠
        fill (lookup .english "\x7b\x7ba\x7d\x7d") [("b", "c"), ("a", "b")] ∧
      fill (lookup .english "\x7ba\x7db\x7d") [("a", "\x7b"), ("b", "c")] ≠
        fill (lookup .english "\x7ba\x7db\x7d") [("b", "c"), ("a", "\x7b")] ∧
      fill (lookup .english "\x7ba\x7db\x7d") [("a", "c"), ("a\x7db", "d")] ≠
        fill (lookup .english "\x7ba\x7db\x7d") [("a\x7db", "d"), ("a", "c")] := by
  have distinct : (crossedArguments.map Prod.fst).Nodup := by decide
  refine ⟨distinct, by decide +kernel, ?_, by decide +kernel, by decide +kernel,
    by decide +kernel, by decide +kernel⟩
  intro fills
  -- Filled in the other order, which has one result.
  have text : IsFlat (lookup .english "install.installing").toList ∧
      (lookup .english "install.installing").toList.count '\x7d' ≤ 1 := by decide +kernel
  have turned := isFilled_fill text.1 (.inl text.2)
    (show IsInOrder crossedArguments.reverse by decide +kernel)
  have same := fills.unique distinct (.inl text.2)
    (turned.of_mem_iff fun _ => List.mem_reverse)
  exact absurd same (by decide +kernel)

end AgentKit.Phrase
