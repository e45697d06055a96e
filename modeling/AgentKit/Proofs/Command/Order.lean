/-
# The order of targets

Targets are installed one after the other, but the order does not show: if it succeeds in
one order, it does in every other, with the same tree and the same results for every
target.

Two neighbours are not simply exchanged. The root may lead through directories that do not
exist yet, and then the first target makes them, whichever it is. Instead the tree that
one order leaves bounds what every other order meets. Both trees lie within each other, so
they have the same directories; and the files are those of the plans, which have no place
in common.
-/

import AgentKit.Proofs.Command.Job
import AgentKit.Proofs.Delivery.Separate
import AgentKit.Proofs.Plan.Area

namespace AgentKit

open Files (Tree Location)
open Files.Tree (KeepsDirectories Within Alike)
open Delivery (Repeatable Touches Holds Separate told keepLast)

variable {agents : List Agent} {locale : Locale} {root : Path}
  {tree bound before after after' : Tree} {target : Target} {targets others : List Target}
  {results results' : List (Target × List Delivered)}

/-! ## Installing within a bound -/

/-- Targets that could be installed again in the bound are installed in every tree within
it, in any order. -/
theorem installAll_within (plain : ∀ agent ∈ agents, '/' ∉ agent.stem.toList)
    (within : Within tree bound)
    (repeatable : ∀ target ∈ targets, Repeatable root (target.plan locale agents) bound) :
    ∃ after results, installAll agents locale root tree targets = (after, .ok results) ∧
      Within after bound := by
  induction targets generalizing tree with
  | nil => exact ⟨tree, [], rfl, within⟩
  | cons target targets ih =>
      obtain ⟨next, outcomes, delivered, inside⟩ :=
        (repeatable target List.mem_cons_self).deliver_within within
          (target.isOrdinary_plan locale plain)
      obtain ⟨after, results, rest, inside⟩ :=
        ih inside fun other member => repeatable other (List.mem_cons_of_mem _ member)
      exact ⟨after, _, installAll_cons_eq_ok_iff.mpr ⟨next, _, _, delivered, rest, rfl⟩, inside⟩

/-! ## What every target leaves and tells -/

theorem separate_plan (plain : ∀ agent ∈ agents, '/' ∉ agent.stem.toList) {other : Target}
    (different : target ≠ other) (locale : Locale) :
    Separate (target.plan locale agents) (other.plan locale agents) := by
  intro artifact member artifact' member' same
  have owned := (Target.contains_plan plain member).owned
  exact owned.not_owns different (same ▸ (Target.contains_plan plain member').owned)

/-- Different targets hold all their artifacts in the end and tell what was there in the
beginning. -/
theorem holds_of_installAll (plain : ∀ agent ∈ agents, '/' ∉ agent.stem.toList)
    (distinct : targets.Nodup)
    (installed : installAll agents locale root before targets = (after, .ok results)) :
    (∀ target ∈ targets, Holds root (target.plan locale agents) after) ∧
      results = targets.map fun target =>
        (target, told before after root (target.plan locale agents)) := by
  induction targets generalizing before results with
  | nil =>
      obtain ⟨rfl, rfl⟩ : before = after ∧ [] = results := by simpa [installAll] using installed
      exact ⟨by simp, rfl⟩
  | cons target targets ih =>
      obtain ⟨middle, outcomes, others, delivered, rest, rfl⟩ :=
        installAll_cons_eq_ok_iff.mp installed
      rw [List.nodup_cons] at distinct
      have ordinary := target.isOrdinary_plan locale plain
      obtain ⟨first, rfl⟩ := Delivery.holds_of_deliver ordinary delivered
      obtain ⟨holds, rfl⟩ := ih distinct.2 rest
      have early := Delivery.touches_deliver ordinary root before
      rw [delivered] at early
      have late := touches_installAll plain targets locale root middle
      rw [rest] at late
      have separate : Separate (target.plan locale agents) (planOf targets locale agents) := by
        intro artifact member artifact' member'
        obtain ⟨other, inside, planned⟩ := List.mem_flatMap.mp member'
        have different : target ≠ other := fun same => distinct.1 (same ▸ inside)
        exact separate_plan plain different locale artifact member artifact' planned
      refine ⟨fun other member => ?_, ?_⟩
      · rcases List.mem_cons.mp member with rfl | inside
        · exact first.mono late separate
        · exact holds other inside
      · rw [List.map_cons, Delivery.told_of_keeps late.toKeepsDirectories first]
        congr 1
        refine List.map_congr_left fun other inside => ?_
        have different : other ≠ target := fun same => distinct.1 (same ▸ inside)
        rw [Delivery.told_of_touches early late.toKeepsDirectories (holds other inside)
          (separate_plan plain different locale)]

/-! ## Every order -/

/-- Runs of the same targets that lie within each other leave the same. -/
theorem alike_of_installAll (plain : ∀ agent ∈ agents, '/' ∉ agent.stem.toList)
    (distinct : targets.Nodup) (order : others.Perm targets)
    (first : installAll agents locale root before targets = (after, .ok results))
    (second : installAll agents locale root before others = (after', .ok results'))
    (inside : Within after' after) (around : Within after after') : Alike after after' where
  current := around.current
  found location := by
    have holds := (holds_of_installAll plain distinct first).1
    have holds' := (holds_of_installAll plain (order.nodup_iff.mpr distinct) second).1
    have touches := touches_installAll plain targets locale root before
    have touches' := touches_installAll plain others locale root before
    rw [first] at touches
    rw [second] at touches'
    by_cases planned : ∃ base, after.reach root = .ok base ∧
        ∃ artifact ∈ planOf targets locale agents, location = base ++ artifact.path.moves
    · obtain ⟨base, reached, artifact, member, rfl⟩ := planned
      obtain ⟨target, known, planned⟩ := List.mem_flatMap.mp member
      obtain ⟨last, kept, clash⟩ := Delivery.exists_kept planned
      have ordinary := target.isOrdinary_plan locale plain
      have moves := Target.moves_eq_of_clash (ordinary artifact planned)
        (ordinary last ((Delivery.keepLast_sublist _).subset kept)) clash
      obtain ⟨base', reached', found⟩ := holds target known last kept
      obtain ⟨base'', reached'', found'⟩ := holds' target (order.mem_iff.mpr known) last kept
      obtain rfl := Except.ok.inj (reached.symm.trans reached')
      obtain rfl := Except.ok.inj (reached.symm.trans (inside.reach reached''))
      rw [moves, found, found']
    · rcases touches.changes location with
        kept | ⟨base, reached, artifact, member, here⟩ | ⟨_, new, _⟩
      · rcases touches'.changes location with
          kept' | ⟨base, reached, artifact, member, here⟩ | ⟨_, new, _⟩
        · rw [kept, kept']
        · refine absurd ⟨base, inside.reach reached, artifact, ?_, here⟩ planned
          obtain ⟨target, known, own⟩ := List.mem_flatMap.mp member
          exact List.mem_flatMap.mpr ⟨target, order.mem_iff.mp known, own⟩
        · rw [new, inside.directories location new]
      · exact absurd ⟨base, reached, artifact, member, here⟩ planned
      · rw [new, around.directories location new]

/-- Of the agents that were loaded, different targets are installed in every order if they
are in one, with the same tree and the same results. -/
theorem installAll_of_perm {request : LoadRequest} {source : Tree} {roster : Roster}
    (loaded : request.load source = .ok roster) (distinct : targets.Nodup)
    (order : others.Perm targets)
    (installed : installAll roster.agents locale root before targets = (after, .ok results)) :
    ∃ after' results', installAll roster.agents locale root before others = (after', .ok results') ∧
      Alike after after' ∧ results'.map (·.1) = others ∧ results'.Perm results := by
  have plain : ∀ agent ∈ roster.agents, '/' ∉ agent.stem.toList :=
    fun agent => LoadRequest.slash_notMem_stem loaded
  have touches := touches_installAll plain targets locale root before
  rw [installed] at touches
  obtain ⟨after', results', again, inside⟩ := installAll_within plain touches.toWithin
    fun target member => repeatable_of_installAll plain installed target (order.mem_iff.mp member)
  have touches' := touches_installAll plain others locale root before
  rw [again] at touches'
  obtain ⟨same, _, once, around⟩ := installAll_within plain touches'.toWithin
    fun target member => repeatable_of_installAll plain again target (order.mem_iff.mpr member)
  obtain rfl : after = same := congrArg Prod.fst (installed.symm.trans once)
  obtain ⟨holds, rfl⟩ := holds_of_installAll plain distinct installed
  obtain ⟨holds', rfl⟩ := holds_of_installAll plain (order.nodup_iff.mpr distinct) again
  refine ⟨after', _, again, alike_of_installAll plain distinct order installed again inside around,
    by simp [Function.comp_def], ?_⟩
  have tells (target : Target) (member : target ∈ others) :
      (target, told before after' root (target.plan locale roster.agents)) =
        (target, told before after root (target.plan locale roster.agents)) := by
    rw [Delivery.told_of_keeps inside.toKeepsDirectories (holds' target member)]
  rw [List.map_congr_left tells]
  exact order.map _

/-- The twins are installed for two targets in either order. -/
theorem installAll_twins :
    ∃ after results,
      installAll Target.twins .english "." Target.twinTree [.windsurf, .web] =
        (after, .ok results) ∧
      Alike (installAll Target.twins .english "." Target.twinTree [.web, .windsurf]).1 after ∧
      results.map (·.1) = [.windsurf, .web] ∧
      results.Perm
        [(.web, [⟨"prompts/a-b.txt", false⟩, ⟨"prompts/a_b.txt", false⟩]),
          (.windsurf, [⟨".windsurfrules", false⟩])] := by
  obtain ⟨roster, loaded, agents⟩ := Target.load_twinTree
  have done : (installAll Target.twins .english "." Target.twinTree [.web, .windsurf]).2 =
      .ok [(.web, [⟨"prompts/a-b.txt", false⟩, ⟨"prompts/a_b.txt", false⟩]),
        (.windsurf, [⟨".windsurfrules", false⟩])] := by
    decide +kernel
  rw [← agents] at done ⊢
  exact installAll_of_perm loaded (by decide) (.swap _ _ []) (Prod.ext rfl done)

end AgentKit
