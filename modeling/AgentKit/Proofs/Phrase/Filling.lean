/-
# Filling phrases

A phrase whose wording has one place shows the value between what stands before the place and
what stands behind it. A phrase that begins with something else than a place begins like its
wording, whatever its places are filled with.
-/

import AgentKit.Phrase
import AgentKit.Proofs.Text.Replacing

namespace AgentKit.Phrase

variable {phrase : Phrase} {locale : Locale}

theorem head?_fillPlace {text : List Char} {c : Char} (begins : text.head? = some c)
    (other : c ≠ '\x7b') (name value : String) : (fillPlace text name value).head? = some c := by
  obtain ⟨rest, rfl⟩ := List.head?_eq_some_iff.mp begins
  rw [fillPlace, Text.replaceAll_of_not_isPrefix (by simp [other.symm]), List.head?_cons]

/-- A phrase that does not begin with a place begins like its wording, however it is filled. -/
theorem head?_render {c : Char} (begins : (phrase.wording locale).toList.head? = some c)
    (other : c ≠ '\x7b') (arguments : List (String × String)) :
    (phrase.render locale arguments).toList.head? = some c := by
  rw [render, fill, String.toList_ofList]
  generalize (phrase.wording locale).toList = text at begins ⊢
  induction arguments generalizing text with
  | nil => exact begins
  | cons argument arguments ih => exact ih _ (head?_fillPlace begins other _ _)

/-- A character of a filled phrase comes from its wording or from a value. -/
theorem mem_render {arguments : List (String × String)} {c : Char}
    (inside : c ∈ (phrase.render locale arguments).toList) :
    c ∈ (phrase.wording locale).toList ∨ ∃ argument ∈ arguments, c ∈ argument.2.toList := by
  rw [render, fill, String.toList_ofList] at inside
  generalize (phrase.wording locale).toList = text at inside ⊢
  induction arguments generalizing text with
  | nil => exact .inl inside
  | cons argument arguments ih =>
      rcases ih _ inside with filled | ⟨other, member, inside⟩
      · rcases Text.mem_replaceFrom filled with value | kept
        · exact .inr ⟨argument, List.mem_cons_self, value⟩
        · exact .inl kept
      · exact .inr ⟨other, List.mem_cons_of_mem argument member, inside⟩

end AgentKit.Phrase
