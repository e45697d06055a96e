/-
# The form of a skill name

A skill name is empty, or words of skill characters with single hyphens between them. It has the
skill characters of its text in lower case, in their order, and a hyphen exactly where something
else stood between two of them. So every skill name is the skill name of itself, and a slug has
the skill name of its stem.

The lower-case form is taken as it is: one character may become two, and characters outside ASCII
may become skill characters.
-/

import AgentKit.Agent.Identifier
import AgentKit.Proofs.Text.Split

namespace AgentKit

open Text (lower lowerChar splitWhere splitWhere_ne_nil splitWhere_cons_of_pos
  splitWhere_cons_of_neg splitWhere_append_cons splitWhere_append_congr splitWhere_of_forall_not
  mem_and_not_of_mem_splitWhere)

variable {cs gap : List Char} {a b c : Char}

/-- Words of skill characters with single hyphens between them. -/
inductive IsSkillName : List Char → Prop where
  | word {word : List Char} (filled : word ≠ []) (skill : ∀ c ∈ word, isSkillChar c) :
    IsSkillName word
  | hyphen {word rest : List Char} (filled : word ≠ []) (skill : ∀ c ∈ word, isSkillChar c)
    (named : IsSkillName rest) : IsSkillName (word ++ '-' :: rest)

/-- The words of a text, joined by hyphens. -/
def hyphenated (cs : List Char) : List Char :=
  ['-'].intercalate (skillWords cs)

theorem toList_skillNameOf (text : String) :
    (skillNameOf text).toList = hyphenated (lower text.toList) := by
  rw [skillNameOf, String.toList_ofList, hyphenated]

/-! ## Words -/

theorem skillWords_nil : skillWords [] = [] := rfl

theorem of_mem_skillWords {word : List Char} (member : word ∈ skillWords cs) :
    word ≠ [] ∧ ∀ c ∈ word, isSkillChar c := by
  obtain ⟨piece, filled⟩ := List.mem_filter.mp member
  refine ⟨by simpa using filled, fun c inside => ?_⟩
  simpa using (mem_and_not_of_mem_splitWhere piece inside).2

/-- Words do not go across other characters. -/
theorem skillWords_append_cons (other : ¬ isSkillChar c) (before after : List Char) :
    skillWords (before ++ c :: after) = skillWords before ++ skillWords after := by
  rw [skillWords, splitWhere_append_cons (by simpa using other), List.filter_append]
  rfl

theorem skillWords_cons_of_neg (other : ¬ isSkillChar c) (cs : List Char) :
    skillWords (c :: cs) = skillWords cs :=
  skillWords_append_cons other [] cs

theorem skillWords_append_of_neg (others : ∀ c ∈ gap, ¬ isSkillChar c) (cs : List Char) :
    skillWords (gap ++ cs) = skillWords cs := by
  induction gap with
  | nil => rfl
  | cons c gap ih =>
      obtain ⟨other, others⟩ := List.forall_mem_cons.mp others
      rw [List.cons_append, skillWords_cons_of_neg other, ih others]

/-- A skill character begins a word or belongs to the one that begins behind it. -/
theorem skillWords_cons_of_pos (skill : isSkillChar c) (cs : List Char) :
    skillWords (c :: cs) = [c] :: skillWords cs ∨
      ∃ word words, skillWords cs = word :: words ∧
        skillWords (c :: cs) = (c :: word) :: words := by
  obtain ⟨piece, pieces, rest⟩ :=
    List.exists_cons_of_ne_nil (splitWhere_ne_nil (fun c => !isSkillChar c) cs)
  have whole := splitWhere_cons_of_neg (by simpa using skill) rest
  rw [skillWords, skillWords, whole, rest]
  cases piece with
  | nil => exact .inl rfl
  | cons d piece => exact .inr ⟨d :: piece, pieces.filter (!·.isEmpty), rfl, rfl⟩

/-- Two skill characters side by side are in one word. -/
theorem skillWords_cons_cons (first : isSkillChar a) (second : isSkillChar b) (cs : List Char) :
    ∃ word words, skillWords (b :: cs) = word :: words ∧
      skillWords (a :: b :: cs) = (a :: word) :: words := by
  obtain ⟨piece, pieces, rest⟩ :=
    List.exists_cons_of_ne_nil (splitWhere_ne_nil (fun c => !isSkillChar c) cs)
  have inner := splitWhere_cons_of_neg (by simpa using second) rest
  have whole := splitWhere_cons_of_neg (by simpa using first) inner
  exact ⟨b :: piece, pieces.filter (!·.isEmpty), by rw [skillWords, inner]; rfl,
    by rw [skillWords, whole]; rfl⟩

/-- A text of skill characters is one word. -/
theorem skillWords_of_forall (filled : cs ≠ []) (skill : ∀ c ∈ cs, isSkillChar c) :
    skillWords cs = [cs] := by
  have kept : ∀ c ∈ cs, ¬ (!isSkillChar c) = true := by simpa using skill
  rw [skillWords, splitWhere_of_forall_not kept]
  simpa using filled

/-! ## Joined words -/

theorem hyphenated_cons_of_neg (other : ¬ isSkillChar c) (cs : List Char) :
    hyphenated (c :: cs) = hyphenated cs := by
  rw [hyphenated, skillWords_cons_of_neg other, hyphenated]

/-- A character that belongs to the first word of a text stands directly before its words. -/
theorem hyphenated_cons_of_word {word : List Char} {words : List (List Char)}
    (rest : skillWords cs = word :: words) (whole : skillWords (c :: cs) = (c :: word) :: words) :
    hyphenated (c :: cs) = c :: hyphenated cs := by
  rw [hyphenated, whole, List.intercalate_cons_cons_left, ← rest, hyphenated]

/-- Behind a skill character comes a hyphen or nothing before the other words. -/
theorem hyphenated_cons_of_pos (skill : isSkillChar c) (cs : List Char) :
    ∃ between : List Char, between.filter isSkillChar = [] ∧
      hyphenated (c :: cs) = c :: (between ++ hyphenated cs) := by
  rcases skillWords_cons_of_pos skill cs with alone | ⟨word, words, rest, whole⟩
  · by_cases last : skillWords cs = []
    · exact ⟨[], rfl, by simp [hyphenated, alone, last]⟩
    · refine ⟨['-'], by decide, ?_⟩
      rw [hyphenated, alone, List.intercalate_cons_of_ne_nil last, hyphenated]
      rfl
  · exact ⟨[], rfl, hyphenated_cons_of_word rest whole⟩

/-- Between two skill characters with nothing but other characters between them stands a hyphen,
or nothing if nothing stood there. -/
theorem hyphenated_cons_gap (first : isSkillChar a) (second : isSkillChar b)
    (others : ∀ c ∈ gap, ¬ isSkillChar c) (after : List Char) :
    hyphenated (a :: (gap ++ b :: after)) =
      a :: ((if gap = [] then [] else ['-']) ++ hyphenated (b :: after)) := by
  cases gap with
  | nil =>
      obtain ⟨word, words, rest, whole⟩ := skillWords_cons_cons first second after
      exact hyphenated_cons_of_word rest whole
  | cons c gap =>
      have filled : skillWords (b :: after) ≠ [] := by
        rcases skillWords_cons_of_pos second after with alone | ⟨_, _, _, whole⟩ <;> simp [*]
      obtain ⟨other, others⟩ := List.forall_mem_cons.mp others
      have words : skillWords (a :: (c :: gap ++ b :: after)) = [a] :: skillWords (b :: after) := by
        rw [List.cons_append, ← List.singleton_append, skillWords_append_cons other,
          skillWords_append_of_neg others, skillWords_of_forall (by simp) (by simpa using first)]
        rfl
      rw [hyphenated, words, List.intercalate_cons_of_ne_nil filled, if_neg (by simp), hyphenated]
      rfl

/-- The same inside a text: what stands before goes by itself. -/
theorem hyphenated_between (first : isSkillChar a) (second : isSkillChar b)
    (others : ∀ c ∈ gap, ¬ isSkillChar c) (before after : List Char) :
    ∃ start, start.filter isSkillChar = before.filter isSkillChar ∧
      hyphenated (before ++ a :: (gap ++ b :: after)) =
        start ++ a :: ((if gap = [] then [] else ['-']) ++ hyphenated (b :: after)) := by
  induction before with
  | nil => exact ⟨[], rfl, hyphenated_cons_gap first second others after⟩
  | cons c before ih =>
      obtain ⟨start, same, whole⟩ := ih
      rw [List.cons_append]
      by_cases skill : isSkillChar c
      · obtain ⟨between, none, split⟩ :=
          hyphenated_cons_of_pos skill (before ++ a :: (gap ++ b :: after))
        refine ⟨c :: (between ++ start), ?_, ?_⟩
        · rw [List.filter_cons_of_pos skill, List.filter_append, none, same,
            List.filter_cons_of_pos skill, List.nil_append]
        · rw [split, whole, List.cons_append, List.append_assoc]
      · exact ⟨start, by rw [same, List.filter_cons_of_neg skill],
          by rw [hyphenated_cons_of_neg skill, whole]⟩

/-- Joining words keeps the skill characters and their order. -/
theorem filter_hyphenated (cs : List Char) :
    (hyphenated cs).filter isSkillChar = cs.filter isSkillChar := by
  induction cs with
  | nil => rfl
  | cons c cs ih =>
      by_cases skill : isSkillChar c
      · obtain ⟨between, none, whole⟩ := hyphenated_cons_of_pos skill cs
        rw [whole, List.filter_cons_of_pos skill, List.filter_append, none, ih,
          List.filter_cons_of_pos skill, List.nil_append]
      · rw [hyphenated_cons_of_neg skill, ih, List.filter_cons_of_neg skill]

theorem hyphenated_eq_nil_iff : hyphenated cs = [] ↔ ∀ c ∈ cs, ¬ isSkillChar c := by
  constructor
  · intro nothing
    rw [← List.filter_eq_nil_iff, ← filter_hyphenated, nothing]
    rfl
  · intro others
    have none : skillWords cs = [] := by
      rw [← List.append_nil cs, skillWords_append_of_neg others, skillWords_nil]
    rw [hyphenated, none]
    rfl

/-! ## The form of joined words -/

theorem isSkillName_intercalate {words : List (List Char)} (filled : words ≠ [])
    (proper : ∀ word ∈ words, word ≠ [] ∧ ∀ c ∈ word, isSkillChar c) :
    IsSkillName (['-'].intercalate words) := by
  induction words with
  | nil => exact absurd rfl filled
  | cons word words ih =>
      obtain ⟨⟨some_char, skill⟩, others⟩ := List.forall_mem_cons.mp proper
      by_cases last : words = []
      · rw [last, List.intercalate_singleton]
        exact .word some_char skill
      · rw [List.intercalate_cons_of_ne_nil last, List.append_assoc, List.singleton_append]
        exact .hyphen some_char skill (ih last others)

theorem hyphenated_form (cs : List Char) : hyphenated cs = [] ∨ IsSkillName (hyphenated cs) := by
  by_cases none : skillWords cs = []
  · left
    rw [hyphenated, none]
    rfl
  · exact .inr (isSkillName_intercalate none fun _ => of_mem_skillWords)

namespace IsSkillName

theorem ne_nil (named : IsSkillName cs) : cs ≠ [] := by
  cases named with
  | word filled _ => exact filled
  | hyphen => simp

/-- The words of a skill name, joined again, are the skill name. -/
theorem hyphenated_eq (named : IsSkillName cs) : hyphenated cs = cs := by
  induction named with
  | word filled skill =>
      rw [hyphenated, skillWords_of_forall filled skill, List.intercalate_singleton]
  | @hyphen word rest filled skill named ih =>
      have more : skillWords rest ≠ [] := by
        intro none
        rw [hyphenated, none] at ih
        exact named.ne_nil ih.symm
      rw [hyphenated, skillWords_append_cons (by decide), skillWords_of_forall filled skill,
        List.singleton_append, List.intercalate_cons_of_ne_nil more, List.append_assoc,
        List.singleton_append, ← hyphenated, ih]

theorem skill_or_hyphen (named : IsSkillName cs) : ∀ c ∈ cs, isSkillChar c ∨ c = '-' := by
  induction named with
  | word _ skill => exact fun c inside => .inl (skill c inside)
  | hyphen _ skill _ ih =>
      intro c inside
      rcases List.mem_append.mp inside with inside | inside
      · exact .inl (skill c inside)
      · rcases List.mem_cons.mp inside with rfl | inside
        · exact .inr rfl
        · exact ih c inside

end IsSkillName

/-! ## Lower case -/

/-- The code points of skill characters and the hyphen. -/
theorem toNat_of_skill_or_hyphen (kept : isSkillChar c ∨ c = '-') :
    c.toNat < 0x41 ∨ 0x5A < c.toNat ∧ c.toNat < 0xC0 := by
  rcases kept with skill | rfl
  · simp only [isSkillChar, Bool.or_eq_true, Bool.and_eq_true, decide_eq_true_eq, Char.le_def,
      UInt32.le_iff_toNat_le] at skill
    have letters : ('a'.val.toNat = 0x61 ∧ 'z'.val.toNat = 0x7A) ∧ '9'.val.toNat = 0x39 := by decide
    rw [Char.toNat]
    omega
  · decide

/-- Skill characters and hyphens are in lower case. -/
theorem lowerChar_eq_singleton (kept : isSkillChar c ∨ c = '-') : lowerChar c = [c] := by
  have code := toNat_of_skill_or_hyphen kept
  have runs : ∀ run ∈ Text.caseRuns, run.first = 0x41 ∧ run.last = 0x5A ∨ 0xC0 ≤ run.first := by
    decide +kernel
  have none : Text.caseRuns.find? (·.covers c.toNat) = none := by
    rw [List.find?_eq_none]
    intro run member covered
    simp only [Text.CaseRun.covers, Bool.and_eq_true, decide_eq_true_eq] at covered
    have := runs run member
    omega
  have plain : c ≠ '\u0130' := by
    rintro rfl
    revert code
    decide
  rw [lowerChar, if_neg plain, none]

theorem lower_eq_self (kept : ∀ c ∈ cs, isSkillChar c ∨ c = '-') : lower cs = cs := by
  induction cs with
  | nil => rfl
  | cons c cs ih =>
      obtain ⟨first, others⟩ := List.forall_mem_cons.mp kept
      have rest := ih others
      rw [lower] at rest ⊢
      rw [List.flatMap_cons, lowerChar_eq_singleton first, rest, List.singleton_append]

/-- Full stops and hyphens are in no word, so a slug has the words of its stem. -/
theorem splitWhere_lower_slug (stem : List Char) :
    splitWhere (fun c => !isSkillChar c) (lower (stem.map fun c => if c = '.' then '-' else c)) =
      splitWhere (fun c => !isSkillChar c) (lower stem) := by
  induction stem with
  | nil => rfl
  | cons c stem ih =>
      simp only [lower, List.map_cons, List.flatMap_cons] at ih ⊢
      by_cases stop : c = '.'
      · have lowers : lowerChar '.' = ['.'] ∧ lowerChar '-' = ['-'] := by decide +kernel
        rw [if_pos stop, stop, lowers.1, lowers.2, List.singleton_append, List.singleton_append,
          splitWhere_cons_of_pos (by decide), splitWhere_cons_of_pos (by decide), ih]
      · rw [if_neg stop]
        exact splitWhere_append_congr ih _

/-! ## Skill names -/

/-- A text is the skill name of another one, in terms of its lower-case form. -/
structure IsSkillNameOf (lowered name : List Char) : Prop where
  form : name = [] ∨ IsSkillName name
  empty : name = [] ↔ ∀ c ∈ lowered, ¬ isSkillChar c
  /-- The name has the skill characters of the text, in their order. -/
  characters : name.filter isSkillChar = lowered.filter isSkillChar
  /-- Two skill characters that follow one another, whatever stands between them, follow one
  another at the same place in the name: next to each other if they did so in the text, and else
  with a hyphen between them. -/
  between : ∀ before a gap b after, lowered = before ++ a :: (gap ++ b :: after) →
    isSkillChar a → isSkillChar b → (∀ c ∈ gap, ¬ isSkillChar c) →
      ∃ start rest, name = start ++ a :: ((if gap = [] then [] else ['-']) ++ b :: rest) ∧
        start.filter isSkillChar = before.filter isSkillChar ∧
        rest.filter isSkillChar = after.filter isSkillChar

theorem isSkillNameOf_hyphenated (lowered : List Char) :
    IsSkillNameOf lowered (hyphenated lowered) where
  form := hyphenated_form lowered
  empty := hyphenated_eq_nil_iff
  characters := filter_hyphenated lowered
  between := by
    rintro before a gap b after rfl first second others
    obtain ⟨start, same, whole⟩ := hyphenated_between first second others before after
    obtain ⟨between, none, ends⟩ := hyphenated_cons_of_pos second after
    refine ⟨start, between ++ hyphenated after, by rw [whole, ends], same, ?_⟩
    rw [List.filter_append, none, filter_hyphenated, List.nil_append]

/-- The skill name of a text that is one already is the text. -/
theorem skillNameOf_eq_self {text : String} (named : text = "" ∨ IsSkillName text.toList) :
    skillNameOf text = text := by
  rcases named with rfl | named
  · rfl
  · rw [← String.toList_inj, toList_skillNameOf, lower_eq_self named.skill_or_hyphen,
      named.hyphenated_eq]

/-- The skill name of a text is canonical. It has the skill characters of the text in lower case,
joined where they were side by side; it is its own skill name, as are no other texts than those of
its form; and the slug of a text has the same one. -/
theorem skillNameOf_canonical (text : String) :
    IsSkillNameOf (lower text.toList) (skillNameOf text).toList ∧
      skillNameOf (skillNameOf text) = skillNameOf text ∧
      (skillNameOf text = text ↔ text = "" ∨ IsSkillName text.toList) ∧
      skillNameOf (slugOf text) = skillNameOf text := by
  have form (text : String) : skillNameOf text = "" ∨ IsSkillName (skillNameOf text).toList := by
    rw [← String.toList_eq_nil_iff, toList_skillNameOf]
    exact hyphenated_form _
  refine ⟨?_, skillNameOf_eq_self (form text),
    ⟨fun fixed => fixed ▸ form text, skillNameOf_eq_self⟩, ?_⟩
  · rw [toList_skillNameOf]
    exact isSkillNameOf_hyphenated _
  · rw [← String.toList_inj, toList_skillNameOf, toList_skillNameOf, slugOf, String.toList_ofList,
      hyphenated, skillWords, splitWhere_lower_slug, ← skillWords, ← hyphenated]

end AgentKit
