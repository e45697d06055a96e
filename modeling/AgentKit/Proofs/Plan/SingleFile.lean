/-
# Targets that read a single file

Some targets read one file for a whole list of agents, a document of the agent that stands
for the list: the first whose slug has the mark of the general coding agent, or else the
first of all. Another target has such a file besides the files of the agents, and there the
document is the same as in the file of that agent.

Only marked agents count for the choice where there is one. So the agents without the mark
may come, go and change places: every edit of that kind leaves the marked agents and their
order, and with them the files. The edits reach every list with those marked agents, so no
change that leaves them has been forgotten.
-/

import AgentKit.Plan
import AgentKit.Proofs.Delivery.Kept
import AgentKit.Proofs.Plan.Marker
import AgentKit.Proofs.Text.Replacing
import Mathlib.Logic.Relation

namespace AgentKit

open Delivery (Clash)

variable {agent : Agent} {agents others : List Agent} {locale : Locale}

namespace Agent

/-- The slug of an agent has the mark of the general coding agent in it. -/
def IsMarked (agent : Agent) : Prop :=
  ∃ before after, agent.slug.toList = before ++ "coder".toList ++ after

theorem isCoder_iff : agent.isCoder ↔ agent.IsMarked := by
  rw [isCoder, Text.occursIn_iff]
  exact exists₂_congr fun before after => eq_comm

/-! ## The agent that stands for a list -/

/-- An agent stands for a list: as the first marked agent, or else as the first agent of a
list without a mark. -/
inductive StandsFor (agent : Agent) : List Agent → Prop where
  | marked {before : List Agent} (after : List Agent) (itself : agent.IsMarked)
      (unmarked : ∀ other ∈ before, ¬ other.IsMarked) : StandsFor agent (before ++ agent :: after)
  | first {after : List Agent} (unmarked : ∀ other ∈ agent :: after, ¬ other.IsMarked) :
      StandsFor agent (agent :: after)

theorem StandsFor.mem (stands : agent.StandsFor agents) : agent ∈ agents := by
  cases stands with
  | marked after itself unmarked => exact List.mem_append_right _ List.mem_cons_self
  | first unmarked => exact List.mem_cons_self

theorem standsFor_of_primary? (stands : primary? agents = some agent) :
    agent.StandsFor agents := by
  rw [primary?] at stands
  cases found : agents.find? isCoder with
  | some first =>
      rw [found, Option.some_or, Option.some_inj] at stands
      obtain ⟨itself, before, after, whole, unmarked⟩ := List.find?_eq_some_iff_append.mp found
      subst stands whole
      refine .marked after (isCoder_iff.mp itself) fun other member => ?_
      rw [← isCoder_iff]
      simpa using unmarked other member
  | none =>
      rw [found, Option.none_or, List.head?_eq_some_iff] at stands
      obtain ⟨after, rfl⟩ := stands
      refine .first fun other member => ?_
      rw [← isCoder_iff]
      exact List.find?_eq_none.mp found other member

/-! ## Edits that leave the marked agents -/

/-- One edit of a list of agents: an agent without the mark comes, goes, or passes others on
its way to the end or to the beginning. -/
inductive Edit : List Agent → List Agent → Prop where
  | insert {agent : Agent} (unmarked : ¬ agent.IsMarked) (before after : List Agent) :
      Edit (before ++ after) (before ++ agent :: after)
  | delete {agent : Agent} (unmarked : ¬ agent.IsMarked) (before after : List Agent) :
      Edit (before ++ agent :: after) (before ++ after)
  | later {agent : Agent} (unmarked : ¬ agent.IsMarked) (before passed after : List Agent) :
      Edit (before ++ agent :: (passed ++ after)) (before ++ (passed ++ agent :: after))
  | earlier {agent : Agent} (unmarked : ¬ agent.IsMarked) (before passed after : List Agent) :
      Edit (before ++ (passed ++ agent :: after)) (before ++ agent :: (passed ++ after))

/-- Any number of edits, one after the other. -/
def Edits : List Agent → List Agent → Prop :=
  Relation.ReflTransGen Edit

theorem filter_isCoder_cons (unmarked : ¬ agent.IsMarked) (after : List Agent) :
    (agent :: after).filter isCoder = after.filter isCoder :=
  List.filter_cons_of_neg (mt isCoder_iff.mp unmarked)

/-- An edit leaves the marked agents and their order. -/
theorem Edit.filter_isCoder (edit : Edit agents others) :
    others.filter isCoder = agents.filter isCoder := by
  cases edit with
  | insert unmarked before after | delete unmarked before after =>
      simp only [List.filter_append, filter_isCoder_cons unmarked]
  | later unmarked before passed after | earlier unmarked before passed after =>
      simp only [List.filter_append, filter_isCoder_cons unmarked]

theorem Edits.filter_isCoder (edits : Edits agents others) :
    others.filter isCoder = agents.filter isCoder := by
  induction edits with
  | refl => rfl
  | tail _ edit ih => rw [edit.filter_isCoder, ih]

/-- Behind any agents, edits take away the agents without the mark, and bring them back. -/
theorem edits_append_filter (before agents : List Agent) :
    Edits (before ++ agents) (before ++ agents.filter isCoder) ∧
      Edits (before ++ agents.filter isCoder) (before ++ agents) := by
  induction agents generalizing before with
  | nil => exact ⟨.refl, .refl⟩
  | cons agent after ih =>
      by_cases marked : agent.IsMarked
      · rw [List.filter_cons_of_pos (isCoder_iff.mpr marked), List.append_cons before agent after,
          List.append_cons before agent (after.filter isCoder)]
        exact ih (before ++ [agent])
      · obtain ⟨there, back⟩ := ih before
        rw [filter_isCoder_cons marked]
        exact ⟨.head (.delete marked before after) there, .tail back (.insert marked before after)⟩

/-- Edits lead from a list to exactly the lists with the same marked agents in the same
order. -/
theorem edits_iff : Edits agents others ↔ others.filter isCoder = agents.filter isCoder := by
  constructor
  · exact Edits.filter_isCoder
  · intro same
    have there := (edits_append_filter [] agents).1
    have back := (edits_append_filter [] others).2
    rw [same] at back
    exact there.trans back

/-- Where an agent is marked, the marked agents decide which agent stands for the list. -/
theorem primary?_of_filter (some_marked : ∃ agent ∈ agents, agent.IsMarked)
    (same : others.filter isCoder = agents.filter isCoder) : primary? others = primary? agents := by
  obtain ⟨agent, member, marked⟩ := some_marked
  have found : (agents.find? isCoder).isSome :=
    List.find?_isSome.mpr ⟨agent, member, isCoder_iff.mpr marked⟩
  have first : others.find? isCoder = agents.find? isCoder := by
    rw [← List.head?_filter, same, List.head?_filter]
  rw [primary?, primary?, first, Option.or_of_isSome found, Option.or_of_isSome found]

end Agent

namespace Target

open Agent (Edits)

/-! ## The files -/

/-- The file of the copilot target for one agent. -/
def copilotFile (locale : Locale) (agent : Agent) : Artifact where
  path := ".github/agents/" ++ agent.slug ++ ".md"
  content := Rendering.copilotInstructions agent locale

/-- The path of an agent's file has another second component than that of the shared file,
whatever the slug is. -/
theorem not_clash_copilotFile (locale : Locale) (agent : Agent) (content : String) :
    ¬ Clash (copilotFile locale agent) ⟨".github/copilot-instructions.md", content⟩ := by
  intro clash
  have moves := (Path.of_components_eq clash).1
  have path : (copilotFile locale agent).path =
      ".github/agents" ++ "/" ++ (agent.slug ++ ".md") := by
    change ".github/agents/" ++ agent.slug ++ ".md" = _
    rw [← String.append_assoc]
    rfl
  have shared : Path.moves ".github/copilot-instructions.md" =
      [".github", "copilot-instructions.md"] := by decide +kernel
  have directory : Path.moves ".github/agents" = [".github", "agents"] := by decide +kernel
  simp only [path, Path.moves_append_slash, directory, shared] at moves
  simp at moves

/-- The files for a whole list show one agent. -/
structure Shows (locale : Locale) (agents : List Agent) (agent : Agent) : Prop where
  /-- The plan is one file. -/
  windsurf : Target.windsurf.plan locale agents =
    [⟨".windsurfrules", Rendering.windsurfRules agent⟩]
  /-- The plan is one file. -/
  trae : Target.trae.plan locale agents =
    [⟨".trae/instructions.md", Rendering.traeRules agent⟩]
  /-- The plan ends with the one file for the list, and the file of the agent has the same
  content. -/
  copilot : ∃ own content,
    Target.copilot.plan locale agents = own ++ [⟨".github/copilot-instructions.md", content⟩] ∧
    content = Rendering.copilotInstructions agent locale ∧
    ⟨".github/agents/" ++ agent.slug ++ ".md", content⟩ ∈ own ∧
    ∀ artifact ∈ own, ¬ Clash artifact ⟨".github/copilot-instructions.md", content⟩

theorem shows_of_primary? (member : agent ∈ agents) (stands : Agent.primary? agents = some agent) :
    Shows locale agents agent := by
  have single (path : String) (rendering : Agent → String) :
      Artifact.ofPrimary agents path rendering = [⟨path, rendering agent⟩] := by
    rw [Artifact.ofPrimary, stands]
    rfl
  have nothing : (agents.flatMap fun _ => []) = ([] : List Artifact) := by simp
  refine ⟨?_, ?_, agents.map (copilotFile locale), _, ?_, rfl, ?_, ?_⟩
  · exact (congrArg (· ++ _) nothing).trans (single _ _)
  · exact (congrArg (· ++ _) nothing).trans (single _ _)
  · have own : agents.flatMap (Target.copilot.agentArtifacts locale) =
        agents.map (copilotFile locale) := List.map_eq_flatMap.symm
    rw [plan, own]
    exact congrArg _ (single _ _)
  · exact List.mem_map_of_mem member
  · intro artifact inside
    obtain ⟨other, _, rfl⟩ := List.mem_map.mp inside
    exact not_clash_copilotFile locale other _

/-- The files for a list with an agent all show the agent that stands for the list, and where
the mark occurs they stay as they are while agents without it come, go and change places. -/
theorem exists_shows (some_agent : agents ≠ []) (locale : Locale) :
    ∃ agent, agent.StandsFor agents ∧ Shows locale agents agent ∧
      ((∃ marked ∈ agents, marked.IsMarked) →
        ∀ others, Edits agents others → agent.StandsFor others ∧ Shows locale others agent) := by
  obtain ⟨agent, primary⟩ := exists_primary some_agent
  have stands := Agent.standsFor_of_primary? primary
  refine ⟨agent, stands, shows_of_primary? stands.mem primary, ?_⟩
  intro some_marked others edits
  have primary' : Agent.primary? others = some agent := by
    rw [Agent.primary?_of_filter some_marked edits.filter_isCoder, primary]
  have stands' := Agent.standsFor_of_primary? primary'
  exact ⟨stands', shows_of_primary? stands'.mem primary'⟩

/-- An agent with a given stem. -/
def sampleAgent (stem : String) : Agent where
  stem := stem
  source := .default
  name := stem
  role := "Helper"
  emoji := ""
  systemPrompt := "Help with the work."
  rules := []
  tools := []
  description := none

/-- The second of two agents is the marked one. Without the first, and with another one behind
it, it still has the files. -/
theorem exists_shows_sample :
    ∃ agent, Shows .english [sampleAgent "sdd.architect", sampleAgent "dev.coder"] agent ∧
      Shows .english [sampleAgent "dev.coder", sampleAgent "sdd.tester"] agent := by
  have some_agent : [sampleAgent "sdd.architect", sampleAgent "dev.coder"] ≠ [] := by simp
  obtain ⟨agent, _, shows, stays⟩ := exists_shows some_agent .english
  have marked : (sampleAgent "dev.coder").IsMarked := ⟨"dev-".toList, [], by decide +kernel⟩
  have edits : Edits [sampleAgent "sdd.architect", sampleAgent "dev.coder"]
      [sampleAgent "dev.coder", sampleAgent "sdd.tester"] :=
    Agent.edits_iff.mpr (by decide +kernel)
  exact ⟨agent, shows, (stays ⟨_, by simp, marked⟩ _ edits).2⟩

end Target

end AgentKit
