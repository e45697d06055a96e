/-
# The normal form of rule texts

Texts that have the same rules are joined to the same text, and no others are: the joined text
is a normal form of its parts, with one rule a line and nothing else. Nothing is there only
where there is no rule, that is, where every line of every part is blank.

So it does not matter whether texts are joined at once or in groups, and joining what is joined
already changes nothing. How a part ends is not seen either: with a line feed or without, with
a carriage return or with other white space.
-/

import AgentKit.Proofs.RuleText.Joining

namespace AgentKit.RuleText

variable {parts others : List String}

/-! ## Texts without rules -/

/-- Nothing is left of a line exactly if it is blank. -/
theorem trimmed_eq_empty_iff (line : String) :
    Text.trimmed line = "" ↔ Text.isBlankText line := by
  rw [← String.toList_eq_nil_iff, Text.trimmed, String.toList_ofList, Text.trim_eq_nil_iff,
    Text.isBlankText, List.all_eq_true]

/-- A text has no rules exactly if all its lines are blank. -/
theorem rules_eq_nil_iff (text : String) :
    rules text = [] ↔ ∀ line ∈ Text.linesOf text, Text.isBlankText line := by
  simp [rules, trimmed_eq_empty_iff]

/-! ## Joining -/

theorem join_eq_none_iff : join parts = none ↔ ∀ part ∈ parts, rules part = [] := by
  rw [← List.flatMap_eq_nil_iff, join]
  split <;> simp_all

/-- Joining sees nothing of the parts but their rules. -/
theorem join_congr (same : parts.flatMap rules = others.flatMap rules) :
    join parts = join others := by
  rw [join, same, ← join]

/-- Parts that are joined to the same text have the same rules. -/
theorem flatMap_rules_congr (same : join parts = join others) :
    parts.flatMap rules = others.flatMap rules := by
  rw [← rulesOf_join, same, rulesOf_join]

/-- What was joined has the rules of its parts, as a part of something else too. -/
theorem flatMap_rules_join (parts : List String) :
    (join parts).toList.flatMap rules = parts.flatMap rules := by
  rw [← rulesOf_join parts]
  cases join parts with
  | none => rfl
  | some text => exact List.flatMap_singleton rules text

/-- Groups that are joined have the rules of all their parts. -/
theorem flatMap_rules_filterMap_join (groups : List (List String)) :
    (groups.filterMap join).flatMap rules = groups.flatten.flatMap rules := by
  induction groups with
  | nil => rfl
  | cons group groups ih =>
      have split : (group :: groups).filterMap join =
          (join group).toList ++ groups.filterMap join := by
        cases joined : join group <;> simp [joined]
      rw [split, List.flatMap_append, flatMap_rules_join, ih, List.flatten_cons,
        List.flatMap_append]

/-! ## The normal form -/

/-- A line feed between two texts keeps their rules apart and changes none. Joining leaves nothing
where all lines of all parts are blank, and otherwise a text with the rules of the parts; it may
be done again, or for groups of the parts first; and its result tells apart the parts that have
different rules, and no others. -/
theorem rules_normal_form :
    (∀ first second : String, rules (first ++ "\n" ++ second) = rules first ++ rules second) ∧
    (∀ parts : List String, join parts = none ↔
      ∀ part ∈ parts, ∀ line ∈ Text.linesOf part, Text.isBlankText line) ∧
    (∀ parts : List String, ∀ text ∈ join parts, rules text = parts.flatMap rules) ∧
    (∀ parts : List String, join (join parts).toList = join parts) ∧
    (∀ groups : List (List String), join (groups.filterMap join) = join groups.flatten) ∧
    ∀ parts others : List String,
      join parts = join others ↔ parts.flatMap rules = others.flatMap rules := by
  refine ⟨rules_append, ?_, ?_, ?_, ?_, fun _ _ => ⟨flatMap_rules_congr, join_congr⟩⟩
  · intro parts
    simp only [join_eq_none_iff, rules_eq_nil_iff]
  · intro parts text joined
    rw [← rulesOf_join, Option.mem_def.mp joined]
    rfl
  · intro parts
    exact join_congr (flatMap_rules_join parts)
  · intro groups
    exact join_congr (flatMap_rules_filterMap_join groups)

/-- Three parts that end their lines in different ways, the second one without a rule. -/
def raggedParts : List String :=
  ["  first \r\n\n\tsecond", "\n \t\r\n", "third\r"]

theorem rules_normal_form_ragged :
    "first\nsecond\nthird" ∈ join raggedParts ∧
      rules "first\nsecond\nthird" = ["first", "second", "third"] := by
  obtain ⟨-, -, read, -⟩ := rules_normal_form
  have joined : "first\nsecond\nthird" ∈ join raggedParts := by decide +kernel
  have all : raggedParts.flatMap rules = ["first", "second", "third"] := by decide +kernel
  exact ⟨joined, (read raggedParts _ joined).trans all⟩

end AgentKit.RuleText
