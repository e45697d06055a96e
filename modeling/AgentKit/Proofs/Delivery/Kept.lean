/-
# Which artifacts are kept

Of the artifacts for one path the last is kept. The kept artifacts stand in the order
of the plan, no two of them have the same path, and every planned path is the path of
one of them. A plan in which no path occurs twice is kept as a whole.
-/

import AgentKit.Delivery
import AgentKit.Proofs.Files.Path
import Mathlib.Data.List.Pairwise

namespace AgentKit.Delivery

/-- Two artifacts are for the same path. -/
def Clash (first second : Artifact) : Prop :=
  Path.components first.path = Path.components second.path

instance (first second : Artifact) : Decidable (Clash first second) :=
  inferInstanceAs (Decidable (_ = _))

theorem Clash.symm {first second : Artifact} (clash : Clash first second) : Clash second first :=
  Eq.symm clash

theorem Clash.trans {first second third : Artifact} (clash : Clash first second)
    (also : Clash second third) : Clash first third :=
  Eq.trans clash also

variable {artifact : Artifact} {later artifacts : List Artifact}

theorem any_same_iff :
    later.any (Path.same artifact.path ·.path) ↔ ∃ other ∈ later, Clash artifact other := by
  simp [Path.same, Clash]

theorem keepLast_cons_of_clash (clash : ∃ other ∈ later, Clash artifact other) :
    keepLast (artifact :: later) = keepLast later := by
  rw [keepLast, if_pos (any_same_iff.mpr clash)]

theorem keepLast_cons_of_not_clash (last : ∀ other ∈ later, ¬ Clash artifact other) :
    keepLast (artifact :: later) = artifact :: keepLast later := by
  have none : ¬ ∃ other ∈ later, Clash artifact other := by simpa using last
  rw [keepLast, if_neg (mt any_same_iff.mp none)]

/-- The kept artifacts stand in the order of the plan. -/
theorem keepLast_sublist (artifacts : List Artifact) : (keepLast artifacts).Sublist artifacts := by
  induction artifacts with
  | nil => exact List.Sublist.refl _
  | cons artifact later ih =>
      by_cases clash : ∃ other ∈ later, Clash artifact other
      · rw [keepLast_cons_of_clash clash]
        exact ih.cons artifact
      · rw [keepLast_cons_of_not_clash (by simpa using clash)]
        exact ih.cons_cons artifact

theorem keepLast_pairwise (artifacts : List Artifact) :
    (keepLast artifacts).Pairwise fun first second => ¬ Clash first second := by
  induction artifacts with
  | nil => exact List.Pairwise.nil
  | cons artifact later ih =>
      by_cases clash : ∃ other ∈ later, Clash artifact other
      · rwa [keepLast_cons_of_clash clash]
      · rw [keepLast_cons_of_not_clash (by simpa using clash), List.pairwise_cons]
        refine ⟨fun other member same => clash ⟨other, ?_, same⟩, ih⟩
        exact (keepLast_sublist later).subset member

/-- Different kept artifacts have different paths. -/
theorem eq_of_clash {first second : Artifact} (kept : first ∈ keepLast artifacts)
    (also : second ∈ keepLast artifacts) (clash : Clash first second) : first = second := by
  by_contra different
  have : Std.Symm fun first second : Artifact => ¬ Clash first second :=
    ⟨fun _ _ apart same => apart same.symm⟩
  exact (keepLast_pairwise artifacts).forall kept also different clash

theorem keepLast_nodup (artifacts : List Artifact) : (keepLast artifacts).Nodup :=
  (keepLast_pairwise artifacts).imp fun apart same => apart (by rw [same]; rfl)

/-- An artifact stands in a plan, and none for the same path comes later. -/
def IsLast (artifact : Artifact) (artifacts : List Artifact) : Prop :=
  ∃ earlier later, artifacts = earlier ++ artifact :: later ∧
    ∀ other ∈ later, ¬ Clash artifact other

/-- Exactly the last artifacts for their paths are kept. -/
theorem mem_keepLast_iff : artifact ∈ keepLast artifacts ↔ IsLast artifact artifacts := by
  constructor
  · intro kept
    induction artifacts with
    | nil => cases kept
    | cons first later ih =>
        have extend (last : IsLast artifact later) : IsLast artifact (first :: later) := by
          obtain ⟨earlier, rest, rfl, none⟩ := last
          exact ⟨first :: earlier, rest, rfl, none⟩
        by_cases clash : ∃ other ∈ later, Clash first other
        · rw [keepLast_cons_of_clash clash] at kept
          exact extend (ih kept)
        · have last : ∀ other ∈ later, ¬ Clash first other := by simpa using clash
          rw [keepLast_cons_of_not_clash last] at kept
          rcases List.mem_cons.mp kept with rfl | inside
          · exact ⟨[], later, rfl, last⟩
          · exact extend (ih inside)
  · rintro ⟨earlier, later, rfl, last⟩
    induction earlier with
    | nil =>
        rw [List.nil_append, keepLast_cons_of_not_clash last]
        exact List.mem_cons_self
    | cons first earlier ih =>
        rw [List.cons_append]
        by_cases clash : ∃ other ∈ earlier ++ artifact :: later, Clash first other
        · rwa [keepLast_cons_of_clash clash]
        · rw [keepLast_cons_of_not_clash (by simpa using clash)]
          exact List.mem_cons_of_mem _ ih

/-- Every planned path is the path of a kept artifact. -/
theorem exists_kept (member : artifact ∈ artifacts) :
    ∃ kept ∈ keepLast artifacts, Clash artifact kept := by
  induction artifacts generalizing artifact with
  | nil => cases member
  | cons first later ih =>
      have keeps (other : Artifact) (inside : other ∈ later) :
          ∃ kept ∈ keepLast (first :: later), Clash other kept := by
        obtain ⟨kept, found, same⟩ := ih inside
        by_cases clash : ∃ other ∈ later, Clash first other
        · exact ⟨kept, by rwa [keepLast_cons_of_clash clash], same⟩
        · refine ⟨kept, ?_, same⟩
          rw [keepLast_cons_of_not_clash (by simpa using clash)]
          exact List.mem_cons_of_mem _ found
      rcases List.mem_cons.mp member with rfl | inside
      · by_cases clash : ∃ other ∈ later, Clash artifact other
        · obtain ⟨other, inside, same⟩ := clash
          obtain ⟨kept, found, also⟩ := keeps other inside
          exact ⟨kept, found, same.trans also⟩
        · refine ⟨artifact, ?_, rfl⟩
          rw [keepLast_cons_of_not_clash (by simpa using clash)]
          exact List.mem_cons_self
      · exact keeps artifact inside

/-- Nothing is dropped from a plan without clashes. -/
theorem keepLast_eq_self (apart : artifacts.Pairwise fun first second => ¬ Clash first second) :
    keepLast artifacts = artifacts := by
  induction artifacts with
  | nil => rfl
  | cons artifact later ih =>
      rw [List.pairwise_cons] at apart
      rw [keepLast_cons_of_not_clash apart.1, ih apart.2]

end AgentKit.Delivery
