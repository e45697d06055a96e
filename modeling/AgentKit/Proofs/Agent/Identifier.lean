/-
# Identifiers as names of files

Neither a slug nor a skill name has a slash if the stem has none, so each of them is
one part of a path. A skill name has no full stop either. Different stems can have one
slug, and different slugs one skill name; equal slugs always have one skill name.
-/

import AgentKit.Agent
import AgentKit.Proofs.Text.Split

namespace AgentKit

theorem mem_slugOf {stem : String} {c : Char} (inside : c ∈ (slugOf stem).toList) :
    c ∈ stem.toList ∧ c ≠ '.' ∨ c = '-' := by
  rw [slugOf, String.toList_ofList] at inside
  obtain ⟨d, member, rfl⟩ := List.mem_map.mp inside
  by_cases stop : d = '.'
  · exact .inr (if_pos stop)
  · rw [if_neg stop]
    exact .inl ⟨member, stop⟩

theorem slash_notMem_slugOf {stem : String} (plain : '/' ∉ stem.toList) :
    '/' ∉ (slugOf stem).toList := by
  intro inside
  rcases mem_slugOf inside with ⟨member, _⟩ | hyphen
  · exact plain member
  · exact absurd hyphen (by decide)

/-- A skill name consists of skill characters and hyphens. -/
theorem mem_skillNameOf {slug : String} {c : Char} (inside : c ∈ (skillNameOf slug).toList) :
    isSkillChar c ∨ c = '-' := by
  rw [skillNameOf, String.toList_ofList] at inside
  rcases Text.mem_intercalate inside with between | ⟨word, member, found⟩
  · exact .inr (List.mem_singleton.mp between)
  · left
    have kept := (Text.mem_and_not_of_mem_splitWhere (List.mem_filter.mp member).1 found).2
    simpa using kept

theorem slash_notMem_skillNameOf (slug : String) : '/' ∉ (skillNameOf slug).toList := by
  intro inside
  rcases mem_skillNameOf inside with skill | hyphen
  · exact absurd skill (by decide)
  · exact absurd hyphen (by decide)

theorem stop_notMem_skillNameOf (slug : String) : '.' ∉ (skillNameOf slug).toList := by
  intro inside
  rcases mem_skillNameOf inside with skill | hyphen
  · exact absurd skill (by decide)
  · exact absurd hyphen (by decide)

/-- A skill name does not begin with a hyphen. -/
theorem isSkillChar_head_skillNameOf (slug : String) :
    ∀ c ∈ (skillNameOf slug).toList.head?, isSkillChar c := by
  rw [skillNameOf, String.toList_ofList]
  have proper : ∀ word ∈ skillWords (Text.lower slug.toList),
      word ≠ [] ∧ ∀ c ∈ word, isSkillChar c := by
    intro word member
    obtain ⟨piece, filled⟩ := List.mem_filter.mp member
    refine ⟨by simpa using filled, fun c inside => ?_⟩
    simpa using (Text.mem_and_not_of_mem_splitWhere piece inside).2
  cases words : skillWords (Text.lower slug.toList) with
  | nil => simp
  | cons word others =>
      obtain ⟨filled, skill⟩ := proper word (words ▸ List.mem_cons_self)
      obtain ⟨c, rest, rfl⟩ := List.exists_cons_of_ne_nil filled
      cases others <;> simp [List.intercalate_cons_cons, skill c]

end AgentKit
