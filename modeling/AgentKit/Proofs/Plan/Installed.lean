/-
# What an installation leaves of every agent

Whatever was loaded, an installation that succeeds leaves the files that are named by
slugs or stems, and the shared files, with what was planned for them. A file that is
named by a skill name holds the rendering of the last agent with that name: different
slugs can have one skill name, and then the files of the earlier agents are dropped.

The tree from which the definitions were loaded need not be the one into which the
files are written.
-/

import AgentKit.Proofs.Delivery.Effect
import AgentKit.Proofs.Plan.Clashes
import AgentKit.Proofs.Roster.Loading
import Mathlib

namespace AgentKit.Target

open Files (Tree)
open Delivery (Clash IsLast)

/-- What an installation of the agents of a roster does when it succeeds. -/
structure Installs (target : Target) (locale : Locale) (agents : List Agent) (root : Path)
    (after : Tree) (outcomes : List Delivered) : Prop where
  /-- There is one result for every planned path, in the order of the plan. -/
  paths : ∃ kept : List Artifact, outcomes.map (·.path) = kept.map (·.path) ∧
    kept.Sublist (target.plan locale agents) ∧
    (kept.Pairwise fun first second => ¬ Clash first second) ∧
    ∀ artifact, artifact ∈ kept ↔ IsLast artifact (target.plan locale agents)
  /-- Every agent keeps the files that are named by its slug or stem. -/
  own : ∀ agent ∈ agents, ∀ artifact ∈ target.namedBySkill false locale agent,
    after.readText (root.join artifact.path) = .ok artifact.content
  shared : ∀ artifact ∈ target.sharedArtifacts locale agents,
    after.readText (root.join artifact.path) = .ok artifact.content
  /-- The last agent with a skill name keeps all its files. -/
  last : ∀ earlier agent later, agents = earlier ++ agent :: later →
    (∀ other ∈ later, other.skillName ≠ agent.skillName) →
    ∀ artifact ∈ target.agentArtifacts locale agent,
      after.readText (root.join artifact.path) = .ok artifact.content
  /-- Nothing is dropped where skill names are distinct or name no file. -/
  complete : (agents.map Agent.skillName).Nodup ∨
      (∀ place ∈ target.places, ¬ place.1.bySkill) →
    outcomes.map (·.path) = (target.plan locale agents).map (·.path)

variable {target : Target} {locale : Locale} {agents : List Agent} {root : Path}
  {before after : Tree} {outcomes : List Delivered}

theorem installs_of_install (plain : ∀ agent ∈ agents, '/' ∉ agent.stem.toList)
    (distinct : (agents.map Agent.slug).Nodup)
    (installed : target.install agents locale root before = (after, .ok outcomes)) :
    target.Installs locale agents root after outcomes := by
  rw [install_eq_deliver] at installed
  have ordinary := isOrdinary_plan target locale plain
  have completed := Delivery.completed_of_deliver ordinary installed
  constructor
  · exact completed.paths
  · intro agent inside artifact member
    obtain ⟨place, placed, own⟩ := mem_namedBySkill_iff.mp member
    obtain ⟨earlier, later, whole⟩ := List.append_of_mem inside
    refine (completed.holds artifact ?_).1
    exact isLast_of_placed plain distinct whole placed fun skill => by simp [own] at skill
  · intro artifact member
    exact (completed.holds artifact (isLast_of_shared member)).1
  · intro earlier agent later whole alone artifact member
    obtain ⟨place, placed⟩ := exists_place member
    refine (completed.holds artifact ?_).1
    exact isLast_of_placed plain distinct whole placed fun _ => alone
  · intro names
    have kept := keepLast_plan target locale plain distinct names
    obtain ⟨ready, made, all, rfl⟩ :=
      Delivery.of_deliverBy ordinary (Delivery.deliver_eq_ok_iff.mp installed)
    rw [kept]
    simp [Delivery.outcome, Function.comp_def]

/-- Of the agents that were loaded, two have planned files for one path only where both
files are named by one skill name, and an installation of them that succeeds loses only
such files of the earlier agents. -/
theorem installs_of_load {request : LoadRequest} {source : Tree} {roster : Roster}
    (loaded : request.load source = .ok roster) (target : Target) (locale : Locale) :
    ((target.plan locale roster.agents).Pairwise fun first second => Clash first second →
      ∃ agent ∈ roster.agents, ∃ other ∈ roster.agents, agent.slug ≠ other.slug ∧
        agent.skillName = other.skillName ∧
        first ∈ target.namedBySkill true locale agent ∧
        second ∈ target.namedBySkill true locale other) ∧
      ∀ root before after outcomes,
        target.install roster.agents locale root before = (after, .ok outcomes) →
          target.Installs locale roster.agents root after outcomes := by
  have plain : ∀ agent ∈ roster.agents, '/' ∉ agent.stem.toList :=
    fun agent => LoadRequest.slash_notMem_stem loaded
  have distinct := LoadRequest.nodup_slugs_of_load loaded
  exact ⟨pairwise_plan plain distinct,
    fun root before after outcomes => installs_of_install plain distinct⟩

/-! ## Two agents with one skill name -/

/-- The text of a definition without rules and tools. -/
def twinText : String :=
  "\x7bname: A, role: B, systemPrompt: abcdefghij\x7d"

/-- Two definition files whose stems have different slugs and one skill name. -/
def twinTree : Tree where
  entries :=
    [(["d"], .directory), (["d", "a-b.yaml"], .file (.text twinText)),
     (["d", "a_b.yaml"], .file (.text twinText))]
  workingDirectory := []

def twinRequest : LoadRequest where
  defaults := .directory "d"
  overrides := none
  locale := .english
  globalRules := none

/-- The agent of one of the files. -/
def twin (stem : String) : Agent where
  stem := stem
  source := .default
  name := "A"
  role := "B"
  emoji := Definition.defaultEmoji
  systemPrompt := "abcdefghij"
  rules := ["Always reply in English unless told otherwise."]
  tools := []
  description := none

def twins : List Agent := [twin "a-b", twin "a_b"]

theorem ofText_twinText :
    Yaml.Value.ofText twinText =
      .ok (.mapping [(.string "name", .string "A"), (.string "role", .string "B"),
        (.string "systemPrompt", .string "abcdefghij")]) := by
  cbv

theorem agentOf_twins :
    twinRequest.agentOf twinTree "a-b.yaml" = .ok (twin "a-b") ∧
      twinRequest.agentOf twinTree "a_b.yaml" = .ok (twin "a_b") := by
  have compose (file : String) : twinRequest.compose file twinText .default =
      .ok (twin ((Definition.stem? file).getD file)) := by
    rw [LoadRequest.compose, ofText_twinText]
    rfl
  have first : twinRequest.readDefinition twinTree "a-b.yaml" = .ok (twinText, .default) := by rfl
  have second : twinRequest.readDefinition twinTree "a_b.yaml" = .ok (twinText, .default) := by rfl
  constructor
  · rw [LoadRequest.agentOf, first]
    exact compose "a-b.yaml"
  · rw [LoadRequest.agentOf, second]
    exact compose "a_b.yaml"

theorem files_of_unsortedFiles_eq_twins {request : LoadRequest} {tree : Tree}
    (unsorted : request.unsortedFiles tree = .ok ["a-b.yaml", "a_b.yaml"]) :
    request.files tree = .ok ["a-b.yaml", "a_b.yaml"] := by
  have sorted : ["a-b.yaml", "a_b.yaml"].Pairwise fun a b : String => decide (a ≤ b) = true := by
    decide
  rw [LoadRequest.files, unsorted, Except.map, List.mergeSort_of_pairwise sorted]

/-- The two agents with the files that yield them. -/
def twinRoster : Roster :=
  [("a-b.yaml", .loaded (twin "a-b")), ("a_b.yaml", .loaded (twin "a_b"))]

theorem load_twinTree_eq : twinRequest.load twinTree = .ok twinRoster := by
  have listed : twinRequest.files twinTree = .ok ["a-b.yaml", "a_b.yaml"] :=
    files_of_unsortedFiles_eq_twins rfl
  rw [LoadRequest.load_of_files listed, Roster.ofFiles, List.map_cons, List.map_cons,
    List.map_nil, agentOf_twins.1, agentOf_twins.2]
  rfl

theorem load_twinTree :
    ∃ roster, twinRequest.load twinTree = .ok roster ∧ roster.agents = twins :=
  ⟨twinRoster, load_twinTree_eq, rfl⟩

/-- The twins are for one file, and only one result tells of it. -/
theorem twins_clash :
    ∃ roster, twinRequest.load twinTree = .ok roster ∧
      roster.agents.map Agent.slug = ["a-b", "a_b"] ∧
      (antigravity.plan .english roster.agents).length = 2 ∧
      (¬ (antigravity.plan .english roster.agents).Pairwise
        fun first second => ¬ Clash first second) ∧
      (antigravity.install roster.agents .english "." twinTree).2 =
        .ok [⟨".agent/skills/a-b/SKILL.md", false⟩] := by
  obtain ⟨roster, loaded, agents⟩ := load_twinTree
  refine ⟨roster, loaded, ?_⟩
  rw [agents]
  exact ⟨by decide +kernel, by decide +kernel, by decide +kernel, by decide +kernel⟩

/-- The file holds the rendering of the last of the twins. -/
theorem installs_twins :
    (antigravity.install twins .english "." twinTree).1.readText "./.agent/skills/a-b/SKILL.md" =
      .ok (Rendering.skill (twin "a_b")) := by
  obtain ⟨roster, loaded, agents⟩ := load_twinTree
  have done : (antigravity.install twins .english "." twinTree).2 =
      .ok [⟨".agent/skills/a-b/SKILL.md", false⟩] := by decide +kernel
  have installs := (installs_of_load loaded antigravity .english).2 "." twinTree _ _
    (Prod.ext rfl (agents ▸ done))
  rw [agents] at installs
  exact installs.last [twin "a-b"] (twin "a_b") [] rfl (by simp)
    (.skill ".agent/skills" (twin "a_b")) List.mem_cons_self

end AgentKit.Target
