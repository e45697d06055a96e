/-
# Cutting and joining rule texts

The rules of a text are what stands between its line feeds, trimmed, wherever that leaves
anything. How a line ends otherwise does not matter: a carriage return in front of a line
feed is trimmed, and so is one at the end of the text.

It follows that texts can be put on top of each other. The rules of two texts with a line
feed between them are those of the one and then those of the other, and rules that were
joined to a text are read from it again.
-/

import AgentKit.Proofs.Text.LineEnding
import AgentKit.RuleText

namespace AgentKit

namespace RuleText

variable {text rule : String}

/-- What stands between the line feeds of a text, trimmed, wherever that leaves anything. -/
def trimmedLines (text : String) : List String :=
  (Text.trimmedPieces (Text.splitAt '\n' text.toList)).map String.ofList

theorem rules_eq_trimmedLines (text : String) : rules text = trimmedLines text := by
  have trims : Text.trimmed ∘ String.ofList = String.ofList ∘ Text.trim := by
    funext line
    rw [Function.comp_apply, Text.trimmed, String.toList_ofList, Function.comp_apply]
  have keeps : (fun rule : String => !rule.isEmpty) ∘ String.ofList =
      fun line : List Char => !line.isEmpty := by
    funext line
    have same : (String.ofList line).isEmpty = line.isEmpty := by
      rw [Bool.eq_iff_iff, String.isEmpty_iff, List.isEmpty_iff, ← String.toList_eq_nil_iff,
        String.toList_ofList]
    rw [Function.comp_apply, same]
  rw [trimmedLines, ← (Text.beside_lines text.toList).trimmedPieces_eq, rules, Text.linesOf,
    Text.trimmedPieces, List.map_map, trims, ← List.map_map, List.filter_map, keeps]

/-- A text that is a rule: it is trimmed, not empty, and on one line. -/
structure IsRule (rule : String) : Prop where
  filled : rule ≠ ""
  trimmed : Text.IsTrimmed rule.toList
  oneLine : '\n' ∉ rule.toList

/-- A text that is written as characters is a rule if they are as a rule needs them. -/
theorem isRule_ofList {cs : List Char} (proper : cs ≠ [] ∧ Text.IsTrimmed cs ∧ '\n' ∉ cs) :
    IsRule (String.ofList cs) := by
  obtain ⟨filled, trimmed, oneLine⟩ := proper
  constructor
  · rwa [Ne, ← String.toList_eq_nil_iff, String.toList_ofList]
  · rwa [String.toList_ofList]
  · rwa [String.toList_ofList]

/-- What is read from a text are rules. -/
theorem isRule_of_mem_rules (member : rule ∈ rules text) : IsRule rule := by
  rw [rules_eq_trimmedLines, trimmedLines, List.mem_map] at member
  obtain ⟨left, inside, rfl⟩ := member
  obtain ⟨filled, piece, cut, trimmed⟩ := Text.mem_trimmedPieces inside
  refine isRule_ofList ⟨filled, trimmed ▸ Text.isTrimmed_trim piece, fun feed => ?_⟩
  have within := Text.mem_of_mem_trim (trimmed ▸ feed)
  exact (Text.mem_and_not_of_mem_splitWhere cut within).2 (by simp)

/-- A text below another one, on a new line, adds its rules and changes no other. -/
theorem rules_append (first second : String) :
    rules (first ++ "\n" ++ second) = rules first ++ rules second := by
  have whole : (first ++ "\n" ++ second).toList = first.toList ++ '\n' :: second.toList := by
    simp [String.toList_append]
  rw [rules_eq_trimmedLines, rules_eq_trimmedLines, rules_eq_trimmedLines, trimmedLines,
    trimmedLines, trimmedLines, whole, Text.splitAt_append_cons, Text.trimmedPieces_append,
    List.map_append]

/-- Rules that are joined to a text, one a line, are read from it again. -/
theorem rules_intercalate {lines : List String} (proper : ∀ line ∈ lines, IsRule line) :
    rules ("\n".intercalate lines) = lines := by
  by_cases none_left : lines = []
  · rw [none_left]
    rfl
  · have cut : Text.splitAt '\n' ("\n".intercalate lines).toList = lines.map String.toList := by
      rw [String.toList_intercalate]
      apply Text.splitAt_intercalate
      · simpa using none_left
      · intro piece member
        obtain ⟨line, inside, rfl⟩ := List.mem_map.mp member
        exact (proper line inside).oneLine
    have kept : Text.trimmedPieces (lines.map String.toList) = lines.map String.toList := by
      apply Text.trimmedPieces_eq_self
      intro piece member
      obtain ⟨line, inside, rfl⟩ := List.mem_map.mp member
      exact ⟨by simpa using (proper line inside).filled, (proper line inside).trimmed⟩
    rw [rules_eq_trimmedLines, trimmedLines, cut, kept, List.map_map]
    simp

/-- Joining texts keeps their rules, in order. -/
theorem rulesOf_join (parts : List String) : rulesOf (join parts) = parts.flatMap rules := by
  rw [join]
  cases found : parts.flatMap rules with
  | nil => rfl
  | cons first others =>
      apply rules_intercalate
      intro line member
      rw [← found] at member
      obtain ⟨part, _, inside⟩ := List.mem_flatMap.mp member
      exact isRule_of_mem_rules inside

end RuleText

end AgentKit
