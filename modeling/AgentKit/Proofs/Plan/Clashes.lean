/-
# Which planned files clash

The agents of a roster have different slugs, so two planned files are for one path only
if two agents have the same skill name and both files are named by it. Of such files the
one of the last agent is kept, and nothing else of a plan is dropped.

The agents are those of any list whose slugs are distinct and whose stems have no slash;
loading yields only such lists.
-/

import AgentKit.Installation
import AgentKit.Proofs.Delivery.Kept
import AgentKit.Proofs.Plan.Paths
import Mathlib.Data.List.Nodup

namespace AgentKit.Target

open Delivery (Clash IsLast keepLast)

variable {target : Target} {locale : Locale} {agents earlier later : List Agent}
  {agent other : Agent} {first second : Artifact} {place : Naming × Path}

/-- Installing a target is delivering its plan, also where that is empty. -/
theorem install_eq_deliver (target : Target) (agents : List Agent) (locale : Locale) (root : Path)
    (tree : Files.Tree) :
    target.install agents locale root tree = deliver root (target.plan locale agents) tree := by
  cases agents with
  | nil =>
      have nothing : target.plan locale [] = [] := by cases target <;> rfl
      have none : Delivery.directories root (keepLast []) = [] := by
        simp [Delivery.directories, Delivery.distinct, keepLast]
      rw [nothing]
      unfold deliver
      simp only [none]
      rfl
  | cons agent agents => rfl

theorem isOrdinary_sharedArtifacts (member : first ∈ target.sharedArtifacts locale agents) :
    first.path.IsOrdinary :=
  (target.sharedPath?_spec _ (sharedPath?_of_mem member)).1

/-- All planned paths are ordinary. -/
theorem isOrdinary_plan (target : Target) (locale : Locale)
    (plain : ∀ agent ∈ agents, '/' ∉ agent.stem.toList) :
    ∀ artifact ∈ target.plan locale agents, artifact.path.IsOrdinary := by
  intro artifact member
  rcases List.mem_append.mp member with own | shared
  · obtain ⟨agent, inside, found⟩ := List.mem_flatMap.mp own
    exact isOrdinary_agentArtifacts (plain agent inside) found
  · exact isOrdinary_sharedArtifacts shared

theorem moves_eq_of_clash (ordinary : first.path.IsOrdinary) (also : second.path.IsOrdinary)
    (clash : Clash first second) : first.path.moves = second.path.moves :=
  (ordinary.same_iff also).mp (Path.same_iff.mpr clash)

/-- Files of agents clash only at one place, where the agents have one name. -/
theorem of_clash {place' : Naming × Path} (plain : '/' ∉ agent.stem.toList)
    (also : '/' ∉ other.stem.toList) (member : (place, first) ∈ target.placed locale agent)
    (member' : (place', second) ∈ target.placed locale other) (clash : Clash first second) :
    place = place' ∧
      if place.1.bySkill then agent.skillName = other.skillName else agent.slug = other.slug := by
  have ordinary := isOrdinary_agentArtifacts plain (List.of_mem_zip member).2
  have ordinary' := isOrdinary_agentArtifacts also (List.of_mem_zip member').2
  exact of_moves_eq plain also member member' (moves_eq_of_clash ordinary ordinary' clash)

/-- A file of an agent does not clash with a shared file. -/
theorem not_clash_shared (plain : '/' ∉ agent.stem.toList)
    (member : first ∈ target.agentArtifacts locale agent)
    (shared : second ∈ target.sharedArtifacts locale agents) : ¬ Clash first second := by
  intro clash
  obtain ⟨place, inside⟩ := exists_place member
  have moves := moves_eq_of_clash (isOrdinary_agentArtifacts plain member)
    (isOrdinary_sharedArtifacts shared) clash
  rw [moves_of_mem_placed inside] at moves
  refine (target.sharedPath?_spec _ (sharedPath?_of_mem shared)).2 place (of_mem_placed inside).1 ?_
  rw [← moves]
  exact List.prefix_append _ _

/-- The files of one agent do not clash. -/
theorem pairwise_agentArtifacts (target : Target) (locale : Locale)
    (plain : '/' ∉ agent.stem.toList) :
    (target.agentArtifacts locale agent).Pairwise fun first second => ¬ Clash first second := by
  have places : ((target.placed locale agent).map (·.1)).Nodup := by
    rw [placed, List.map_fst_zip (by rw [length_agentArtifacts])]
    exact nodup_places target
  rw [← map_snd_placed, List.pairwise_map]
  rw [List.Nodup, List.pairwise_map] at places
  refine places.imp_of_mem fun member member' different clash => different ?_
  exact (of_clash plain plain member member' clash).1

theorem pairwise_sharedArtifacts (target : Target) (locale : Locale) (agents : List Agent) :
    (target.sharedArtifacts locale agents).Pairwise fun first second => ¬ Clash first second := by
  rcases paths_sharedArtifacts target locale agents with none | one
  · rw [List.map_eq_nil_iff.mp none]
    exact List.Pairwise.nil
  · cases path : target.sharedPath? with
    | none =>
        rw [path] at one
        rw [List.map_eq_nil_iff.mp one]
        exact List.Pairwise.nil
    | some path' =>
        rw [path] at one
        obtain ⟨artifact, single, _⟩ := List.map_eq_singleton_iff.mp one
        rw [single]
        exact List.pairwise_singleton _ _

/-- Two planned files clash only if both are named by the skill name of two agents with
different slugs. -/
theorem pairwise_plan (plain : ∀ agent ∈ agents, '/' ∉ agent.stem.toList)
    (distinct : (agents.map Agent.slug).Nodup) :
    (target.plan locale agents).Pairwise fun first second => Clash first second →
      ∃ agent ∈ agents, ∃ other ∈ agents, agent.slug ≠ other.slug ∧
        agent.skillName = other.skillName ∧
        first ∈ target.namedBySkill true locale agent ∧
        second ∈ target.namedBySkill true locale other := by
  rw [List.Nodup, List.pairwise_map] at distinct
  rw [plan, List.pairwise_append, List.pairwise_flatMap]
  refine ⟨⟨fun agent inside => ?_, ?_⟩, ?_, ?_⟩
  · exact (pairwise_agentArtifacts target locale (plain agent inside)).imp fun apart clash => absurd clash apart
  · refine distinct.imp_of_mem fun {agent other} inside inside' different first member second
      member' clash => ?_
    obtain ⟨place, placed⟩ := exists_place member
    obtain ⟨place', placed'⟩ := exists_place member'
    obtain ⟨rfl, name⟩ := of_clash (plain agent inside) (plain other inside') placed placed' clash
    cases skill : place.1.bySkill with
    | false =>
        rw [skill, if_neg (by decide)] at name
        exact absurd name different
    | true =>
        rw [skill, if_pos rfl] at name
        exact ⟨agent, inside, other, inside', different, name,
          mem_namedBySkill_iff.mpr ⟨place, placed, skill⟩,
          mem_namedBySkill_iff.mpr ⟨place, placed', skill⟩⟩
  · exact (pairwise_sharedArtifacts target locale agents).imp fun apart clash => absurd clash apart
  · intro first own second shared clash
    obtain ⟨agent, inside, member⟩ := List.mem_flatMap.mp own
    exact absurd clash (not_clash_shared (plain agent inside) member shared)

/-! ## What is kept -/

/-- A file of an agent is kept unless it is named by the skill name and a later agent has
that name too. -/
theorem isLast_of_placed (plain : ∀ agent ∈ agents, '/' ∉ agent.stem.toList)
    (distinct : (agents.map Agent.slug).Nodup) (whole : agents = earlier ++ agent :: later)
    (member : (place, first) ∈ target.placed locale agent)
    (alone : place.1.bySkill → ∀ other ∈ later, other.skillName ≠ agent.skillName) :
    IsLast first (target.plan locale agents) := by
  have inside : agent ∈ agents := by simp [whole]
  obtain ⟨before, after, files⟩ := List.append_of_mem (List.of_mem_zip member).2
  refine ⟨earlier.flatMap (target.agentArtifacts locale) ++ before,
    after ++ later.flatMap (target.agentArtifacts locale) ++
      target.sharedArtifacts locale agents, ?_, ?_⟩
  · rw [plan]
    conv_lhs => enter [1]; rw [whole]
    simp [files]
  · intro second rest clash
    rcases List.mem_append.mp rest with among | shared
    · rcases List.mem_append.mp among with own | following
      · have apart := pairwise_agentArtifacts target locale (plain agent inside)
        rw [files, List.pairwise_append] at apart
        exact (List.pairwise_cons.mp apart.2.1).1 second own clash
      · obtain ⟨other, behind, member'⟩ := List.mem_flatMap.mp following
        obtain ⟨place', placed'⟩ := exists_place member'
        have inside' : other ∈ agents := by simp [whole, behind]
        have name := (of_clash (plain agent inside) (plain other inside') member placed' clash).2
        split at name
        · next skill => exact alone skill other behind name.symm
        · rw [whole, List.map_append, List.map_cons, List.nodup_append] at distinct
          exact (List.nodup_cons.mp distinct.2.1).1 (name ▸ List.mem_map_of_mem behind)
    · exact not_clash_shared (plain agent inside) (List.of_mem_zip member).2 shared clash

theorem isLast_of_shared (member : first ∈ target.sharedArtifacts locale agents) :
    IsLast first (target.plan locale agents) := by
  obtain ⟨before, after, files⟩ := List.append_of_mem member
  refine ⟨agents.flatMap (target.agentArtifacts locale) ++ before, after, ?_, fun second rest => ?_⟩
  · rw [plan, files, List.append_assoc]
  · have apart := pairwise_sharedArtifacts target locale agents
    rw [files, List.pairwise_append] at apart
    exact (List.pairwise_cons.mp apart.2.1).1 second rest

/-- Nothing of a plan is dropped if no two agents have one skill name or no file is named
by it. -/
theorem keepLast_plan (target : Target) (locale : Locale)
    (plain : ∀ agent ∈ agents, '/' ∉ agent.stem.toList)
    (distinct : (agents.map Agent.slug).Nodup)
    (names : (agents.map Agent.skillName).Nodup ∨ ∀ place ∈ target.places, ¬ place.1.bySkill) :
    keepLast (target.plan locale agents) = target.plan locale agents := by
  refine Delivery.keepLast_eq_self ((pairwise_plan plain distinct).imp fun explains clash => ?_)
  obtain ⟨agent, inside, other, inside', different, same, named, _⟩ := explains clash
  rcases names with apart | none
  · exact different (congrArg Agent.slug (List.inj_on_of_nodup_map apart inside inside' same))
  · obtain ⟨place, member, skill⟩ := mem_namedBySkill_iff.mp named
    exact none place (of_mem_placed member).1 skill

end AgentKit.Target
