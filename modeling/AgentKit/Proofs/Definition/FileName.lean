/-
# Names of definition files

A definition file is named by a stem that is not empty and one of two extensions. The
stem belongs to the name: no other stem makes the same name with an extension.
-/

import AgentKit.Definition
import Mathlib.Data.List.TakeWhile

namespace AgentKit.Definition

/-- A text is split at its last full stop, if it has one. -/
theorem splitLastDot_eq_some_iff {cs before after : List Char} :
    splitLastDot cs = some (before, after) ↔ cs = before ++ '.' :: after ∧ '.' ∉ after := by
  have whole := List.takeWhile_append_dropWhile (p := (· != '.')) (l := cs.reverse)
  unfold splitLastDot
  constructor
  · intro found
    split at found
    · contradiction
    · next dot rest shape =>
      obtain ⟨rfl, rfl⟩ : rest.reverse = before ∧
          (cs.reverse.takeWhile (· != '.')).reverse = after := by simpa using found
      have stop : dot = '.' := by
        have := List.head?_dropWhile_not (p := (· != '.')) (l := cs.reverse)
        simpa [shape] using this
      refine ⟨?_, fun inside => ?_⟩
      · rw [shape, stop] at whole
        simpa using (congrArg List.reverse whole).symm
      · have := List.mem_takeWhile_imp (List.mem_reverse.mp inside)
        simp at this
  · rintro ⟨rfl, none⟩
    have plain : ∀ c ∈ after.reverse, (c != '.') = true := by
      intro c inside
      have different : c ≠ '.' := fun same => none (same ▸ List.mem_reverse.mp inside)
      simpa using different
    rw [show (before ++ '.' :: after).reverse = after.reverse ++ '.' :: before.reverse by simp,
      List.dropWhile_append_of_pos plain, List.takeWhile_append_of_pos plain]
    simp

/-- A stem is what stands before one of the extensions. -/
theorem stem?_eq_some_iff {file stem : String} :
    stem? file = some stem ↔ stem ≠ "" ∧ (file = stem ++ ".yaml" ∨ file = stem ++ ".yml") := by
  have append {extension : String} (plain : '.' ∉ extension.toList)
      (whole : file = stem ++ ("." ++ extension)) :
      splitLastDot file.toList = some (stem.toList, extension.toList) := by
    refine splitLastDot_eq_some_iff.mpr ⟨?_, plain⟩
    rw [whole]
    simp
  unfold stem?
  constructor
  · intro found
    split at found
    · contradiction
    · next before after shape =>
      rw [Option.ite_none_left_eq_some] at found
      obtain ⟨proper, same⟩ := found
      obtain rfl := Option.some.inj same
      obtain ⟨whole, _⟩ := splitLastDot_eq_some_iff.mp shape
      simp only [extensions, Bool.or_eq_true, Bool.not_eq_true', not_or] at proper
      have named : String.ofList before ≠ "" := by
        simpa [← String.toList_inj] using proper.1
      refine ⟨named, ?_⟩
      have extension : String.ofList after = "yaml" ∨ String.ofList after = "yml" := by
        simpa [or_iff_not_imp_left] using proper.2
      have text : file = String.ofList before ++ ("." ++ String.ofList after) := by
        rw [← String.toList_inj, whole]
        simp
      rcases extension with long | short
      · exact .inl (text.trans (by rw [long]; rfl))
      · exact .inr (text.trans (by rw [short]; rfl))
  · rintro ⟨named, long | short⟩
    · rw [@append "yaml" (by decide) long]
      simp [extensions, named]
    · rw [@append "yml" (by decide) short]
      simp [extensions, named]

end AgentKit.Definition
