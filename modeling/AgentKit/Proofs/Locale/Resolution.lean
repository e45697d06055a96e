/-
# Resolving languages

A request for a language is resolved by its primary subtag alone. Every key begins with the
subtag of its language, and no two languages have one subtag, so a request that is a whole key
is found by its subtag too, and the search for keys decides nothing.

What does not change the subtag does not change the language: white space around the request,
the case of the letters of ASCII, and which of the two separators stands where. Letters outside
ASCII are different, since a few of them become letters of ASCII in lower case.
-/

import AgentKit.Locale
import AgentKit.Proofs.Agent.SkillName
import AgentKit.Proofs.Text.Trimming
import Mathlib.Data.List.Forall2

namespace AgentKit

namespace Text

variable {before cs after : List Char}

/-- White space around a text does not matter. -/
theorem trim_append_append (blank : ∀ c ∈ before, isBlank c) (blank' : ∀ c ∈ after, isBlank c) :
    trim (before ++ cs ++ after) = trim cs := by
  have start : trimStart (before ++ cs) = trimStart cs :=
    List.dropWhile_append_of_pos blank
  induction after using List.reverseRecOn with
  | nil => rw [List.append_nil, trim, trim, start]
  | append_singleton after c ih =>
      rw [List.forall_mem_append, List.forall_mem_singleton] at blank'
      rw [← List.append_assoc, trim_append_blank blank'.2, ih blank'.1]

end Text

namespace Locale

variable {c : Char} {request : String}

/-- Whether a character separates the subtags of a request. -/
def isSeparator (c : Char) : Bool :=
  c == '-' || c == '_'

/-- The part of a text in lower case before its first separator. -/
def leadingSubtag (cs : List Char) : List Char :=
  (Text.lower cs).takeWhile (!isSeparator ·)

/-- The primary subtag of a request. -/
def primarySubtag (request : String) : List Char :=
  leadingSubtag (Text.trim request.toList)

/-! ## The subtag decides -/

/-- The language whose subtag is the primary one of a request, without a search for keys. -/
def resolveSubtag (request : String) : Locale :=
  let language := (normalize request).takeWhile (· != '_')
  (all.find? fun locale => locale.subtag.toList == language).getD .english

theorem takeWhile_normalize (request : String) :
    (normalize request).takeWhile (· != '_') = primarySubtag request := by
  rw [normalize, primarySubtag, leadingSubtag]
  generalize Text.lower (Text.trim request.toList) = cs
  induction cs with
  | nil => rfl
  | cons c cs ih =>
      by_cases hyphen : c = '-'
      · simp [hyphen, isSeparator]
      · by_cases underscore : c = '_'
        · simp [underscore, isSeparator]
        · simpa [hyphen, underscore, isSeparator] using ih

/-- A key begins with the subtag of its language. -/
theorem takeWhile_key (locale : Locale) :
    locale.key.toList.takeWhile (· != '_') = locale.subtag.toList := by
  cases locale <;> decide

theorem resolveSubtag_of_subtag {locale : Locale}
    (same : locale.subtag.toList = primarySubtag request) : resolveSubtag request = locale := by
  rw [resolveSubtag, takeWhile_normalize, ← same]
  cases locale <;> decide

theorem resolveSubtag_of_ne
    (none_there : ∀ locale : Locale, locale.subtag.toList ≠ primarySubtag request) :
    resolveSubtag request = .english := by
  have nothing : all.find? (fun locale => locale.subtag.toList == primarySubtag request) =
      none := by
    rw [List.find?_eq_none]
    intro locale _ same
    exact none_there locale (eq_of_beq same)
  rw [resolveSubtag, takeWhile_normalize, nothing]
  rfl

/-- A request that is a key has the subtag of its language. -/
theorem resolve_eq_resolveSubtag (request : String) : resolve request = resolveSubtag request := by
  rw [resolve]
  split
  · next locale found =>
      have key : locale.key.toList = normalize request := by
        simpa using List.find?_some found
      exact (resolveSubtag_of_subtag (by rw [← takeWhile_key, key, takeWhile_normalize])).symm
  · rfl

theorem resolve_key (locale : Locale) : resolve locale.key = locale := by
  cases locale <;> decide

/-! ## Spellings of a request -/

/-- Characters that stand for each other in a request: those that differ in the case of ASCII
only, and the separators. -/
def Interchangeable (c d : Char) : Prop :=
  c.toLower = d.toLower ∨ isSeparator c ∧ isSeparator d

theorem toLower_eq_self_or_mem (c : Char) :
    c.toLower = c ∨ c ∈ (List.range 26).map fun n => Char.ofNat (65 + n) := by
  by_cases upper : c.isUpper
  · right
    have bounds : 65 ≤ c.toNat ∧ c.toNat ≤ 90 := of_decide_eq_true upper
    refine List.mem_map.mpr ⟨c.toNat - 65, List.mem_range.mpr (by omega), ?_⟩
    rw [Nat.add_sub_cancel' bounds.1, Char.ofNat_toNat]
  · left
    exact dif_neg fun bounds => upper (decide_eq_true bounds)

/-- A capital letter is a letter in lower case, and no white space and no separator is either. -/
theorem lower_of_mem_capitals :
    ∀ c ∈ (List.range 26).map fun n => Char.ofNat (65 + n),
      Text.lowerChar c = [c.toLower] ∧ isSkillChar c.toLower ∧
        Text.isBlank c.toLower = Text.isBlank c ∧ isSeparator c.toLower = isSeparator c := by
  decide +kernel

/-- The case of a letter does not matter for how it is read. -/
theorem reading_toLower (c : Char) :
    Text.isBlank c.toLower = Text.isBlank c ∧ isSeparator c.toLower = isSeparator c ∧
      Text.lowerChar c.toLower = Text.lowerChar c := by
  rcases toLower_eq_self_or_mem c with same | capital
  · rw [same]
    exact ⟨rfl, rfl, rfl⟩
  · obtain ⟨lowers, letter, blank, separator⟩ := lower_of_mem_capitals c capital
    exact ⟨blank, separator, by rw [lowers, lowerChar_eq_singleton (.inl letter)]⟩

theorem Interchangeable.isBlank_eq {c d : Char} (same : Interchangeable c d) :
    Text.isBlank c = Text.isBlank d := by
  rcases same with lower | ⟨first, second⟩
  · rw [← (reading_toLower c).1, lower, (reading_toLower d).1]
  · have solid : ∀ c, isSeparator c → Text.isBlank c = false := by
      intro c separator
      rw [isSeparator, Bool.or_eq_true, beq_iff_eq, beq_iff_eq] at separator
      rcases separator with rfl | rfl <;> decide
    rw [solid c first, solid d second]

/-- Texts that differ in interchangeable characters. -/
def Respelled (cs ds : List Char) : Prop :=
  List.Forall₂ Interchangeable cs ds

namespace Respelled

variable {cs ds : List Char}

theorem trimStart (same : Respelled cs ds) : Respelled (Text.trimStart cs) (Text.trimStart ds) := by
  induction same with
  | nil => exact .nil
  | @cons c d cs ds first rest ih =>
      rw [Text.trimStart, Text.trimStart, List.dropWhile_cons, List.dropWhile_cons,
        first.isBlank_eq]
      split
      · exact ih
      · exact .cons first rest

theorem trim (same : Respelled cs ds) : Respelled (Text.trim cs) (Text.trim ds) := by
  have reversed : Respelled (Text.trimStart cs).reverse (Text.trimStart ds).reverse :=
    List.forall₂_reverse_iff.mpr same.trimStart
  exact List.forall₂_reverse_iff.mpr reversed.trimStart

theorem leadingSubtag_eq (same : Respelled cs ds) : leadingSubtag cs = leadingSubtag ds := by
  induction same with
  | nil => rfl
  | @cons c d cs ds first _ ih =>
      rw [leadingSubtag, leadingSubtag] at ih ⊢
      rw [Text.lower, Text.lower, List.flatMap_cons, List.flatMap_cons, ← Text.lower, ← Text.lower]
      rcases first with lower | ⟨separator, separator'⟩
      · -- The lower-case forms of the two characters are the same, and so is what follows.
        have forms : Text.lowerChar c = Text.lowerChar d := by
          rw [← (reading_toLower c).2.2, lower, (reading_toLower d).2.2]
        rw [forms, List.takeWhile_append, List.takeWhile_append, ih]
      · -- The subtag ends here in both.
        have ends : ∀ c cs, isSeparator c →
            (Text.lowerChar c ++ Text.lower cs).takeWhile (!isSeparator ·) = [] := by
          intro c cs separator
          rw [isSeparator, Bool.or_eq_true, beq_iff_eq, beq_iff_eq] at separator
          rcases separator with rfl | rfl <;> rfl
        rw [ends c cs separator, ends d ds separator']

end Respelled

/-! ## Requests -/

theorem resolve_congr {other : String} (same : primarySubtag request = primarySubtag other) :
    resolve request = resolve other := by
  rw [resolve_eq_resolveSubtag, resolve_eq_resolveSubtag, resolveSubtag, resolveSubtag,
    takeWhile_normalize, takeWhile_normalize, same]

/-- A request is resolved by its primary subtag. -/
structure IsResolvedBySubtag (request : String) : Prop where
  known : ∀ locale : Locale, locale.subtag.toList = primarySubtag request →
    resolve request = locale
  unknown : (∀ locale : Locale, locale.subtag.toList ≠ primarySubtag request) →
    resolve request = .english
  /-- The search for keys decides nothing. -/
  withoutKeys : resolve request = resolveSubtag request
  /-- White space around a request does not matter. -/
  surrounded : ∀ before after : String, Text.isBlankText before → Text.isBlankText after →
    resolve (before ++ request ++ after) = resolve request
  /-- The case of ASCII does not matter, and neither does the choice of the separators. -/
  respelled : ∀ other : String, Respelled request.toList other.toList →
    resolve other = resolve request
  /-- The language of a request is the language of its key. -/
  key : resolve (resolve request).key = resolve request

theorem isResolvedBySubtag (request : String) : IsResolvedBySubtag request where
  known locale same := by
    rw [resolve_eq_resolveSubtag]
    exact resolveSubtag_of_subtag same
  unknown none_there := by
    rw [resolve_eq_resolveSubtag]
    exact resolveSubtag_of_ne none_there
  withoutKeys := resolve_eq_resolveSubtag request
  surrounded before after blank blank' := by
    apply resolve_congr
    rw [primarySubtag, primarySubtag, String.toList_append, String.toList_append,
      Text.trim_append_append (List.all_eq_true.mp blank) (List.all_eq_true.mp blank')]
  respelled other same := resolve_congr same.trim.leadingSubtag_eq.symm
  key := resolve_key (resolve request)

end Locale

end AgentKit
