/-
# Planned paths stay clear of what is loaded

No planned path has a part that is the directory of the toolkit or the name of a
definition file. So an installation never writes the settings or an override among its
artifacts, and no file that it writes is ever taken for a definition.
-/

import AgentKit.Proofs.Definition.FileName
import AgentKit.Proofs.Plan.Clashes
import AgentKit.Settings.Storage

namespace AgentKit

/-- A name that is neither that of the directory of the toolkit nor that of a definition
file. -/
def IsNeutral (name : String) : Prop :=
  name ≠ toolkitDirectory ∧ Definition.stem? name = none

instance (name : String) : Decidable (IsNeutral name) :=
  inferInstanceAs (Decidable (_ ∧ _))

/-- The endings of the names that are not neutral. -/
def boundEndings : List String := [".sdd-toolkit", ".yaml", ".yml"]

/-- A name is neutral if it ends in none of these. -/
theorem isNeutral_of_endings {name : String}
    (free : ∀ ending ∈ boundEndings, ¬ ending.toList <:+ name.toList) : IsNeutral name := by
  constructor
  · rintro rfl
    exact free ".sdd-toolkit" (by decide) List.suffix_rfl
  · cases found : Definition.stem? name with
    | none => rfl
    | some stem =>
        rcases (Definition.stem?_eq_some_iff.mp found).2 with rfl | rfl
        · exact absurd ⟨stem.toList, by simp⟩ (free ".yaml" (by decide))
        · exact absurd ⟨stem.toList, by simp⟩ (free ".yml" (by decide))

/-- Two endings of one text end in each other. -/
theorem isNeutral_append {name extension : String}
    (apart : ∀ ending ∈ boundEndings, ¬ ending.toList <:+ extension.toList ∧
      ¬ extension.toList <:+ ending.toList) : IsNeutral (name ++ extension) := by
  refine isNeutral_of_endings fun ending member ends => ?_
  have also : extension.toList <:+ (name ++ extension).toList := ⟨name.toList, by simp⟩
  rcases List.suffix_or_suffix_of_suffix ends also with inner | outer
  · exact (apart ending member).1 inner
  · exact (apart ending member).2 outer

theorem isNeutral_of_stop_notMem {name : String} (plain : '.' ∉ name.toList) :
    IsNeutral name := by
  have stops : ∀ ending ∈ boundEndings, '.' ∈ ending.toList := by decide
  exact isNeutral_of_endings fun ending member ends => plain (ends.subset (stops ending member))

namespace Target

variable {target : Target} {locale : Locale} {agents : List Agent} {agent : Agent}
  {artifact : Artifact}

theorem isNeutral_places (target : Target) :
    ∀ place ∈ target.places, ∀ move ∈ place.2.moves, IsNeutral move := by
  cases target <;> decide +kernel

theorem isNeutral_extension (target : Target) (name : String) :
    IsNeutral (name ++ target.extension) := by
  refine isNeutral_append ?_
  cases target <;> decide

theorem isNeutral_sharedPath? (target : Target) :
    ∀ path ∈ target.sharedPath?, path.moves ≠ [] ∧ ∀ move ∈ path.moves, IsNeutral move := by
  cases target <;> decide +kernel

theorem isNeutral_fileName (target : Target) (plain : '/' ∉ agent.stem.toList)
    (naming : Naming) :
    (target.fileName agent naming).moves ≠ [] ∧
      ∀ move ∈ (target.fileName agent naming).moves, IsNeutral move := by
  have skill : IsNeutral agent.skillName :=
    isNeutral_of_stop_notMem (stop_notMem_skillNameOf agent.slug)
  cases naming with
  | own =>
      rw [moves_fileName_own plain]
      refine ⟨by simp, fun move member => ?_⟩
      rw [List.mem_singleton.mp member]
      exact target.isNeutral_extension _
  | skill =>
      have file : IsNeutral "SKILL.md" := by decide
      rw [moves_fileName_skill]
      split
      · exact ⟨by simp, by simpa using file⟩
      · exact ⟨by simp, by simpa using ⟨skill, file⟩⟩
  | subagent =>
      rw [moves_fileName_subagent]
      refine ⟨by simp, fun move member => ?_⟩
      rw [List.mem_singleton.mp member]
      exact isNeutral_append (by decide)

/-- Every planned path makes moves, all of them by neutral names. -/
theorem isNeutral_plan (plain : ∀ agent ∈ agents, '/' ∉ agent.stem.toList)
    (member : artifact ∈ target.plan locale agents) :
    artifact.path.moves ≠ [] ∧ ∀ move ∈ artifact.path.moves, IsNeutral move := by
  rcases List.mem_append.mp member with own | shared
  · obtain ⟨agent, inside, found⟩ := List.mem_flatMap.mp own
    obtain ⟨place, placed⟩ := exists_place found
    obtain ⟨filled, neutral⟩ := target.isNeutral_fileName (plain agent inside) place.1
    rw [moves_of_mem_placed placed]
    refine ⟨by simp [filled], fun move within => ?_⟩
    rcases List.mem_append.mp within with above | below
    · exact target.isNeutral_places place (of_mem_placed placed).1 move above
    · exact neutral move below
  · exact target.isNeutral_sharedPath? _ (sharedPath?_of_mem shared)

end Target

end AgentKit
