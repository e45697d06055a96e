/-
# Plans do not depend on sources

The layer that supplied a definition reaches no path and no document: a plan for agents
is the plan for the same agents found in another layer, for each of them another one
perhaps. Only the choice of the agent that stands for a list looks at the agents together,
and it looks at their slugs.
-/

import AgentKit.Plan

namespace AgentKit

variable {agents others : List Agent}

/-- An agent as if a given layer had supplied it. -/
def Agent.withSource (source : Source) (agent : Agent) : Agent :=
  { agent with source := source }

@[simp]
theorem Agent.slug_withSource (source : Source) (agent : Agent) :
    (agent.withSource source).slug = agent.slug := rfl

theorem Agent.primary?_map_withSource (source : Source) (agents : List Agent) :
    primary? (agents.map (withSource source)) = (primary? agents).map (withSource source) := by
  have marked : isCoder ∘ withSource source = isCoder := rfl
  rw [primary?, primary?, List.find?_map, marked, List.head?_map, Option.map_or]

namespace Target

theorem agentArtifacts_withSource (target : Target) (locale : Locale) (source : Source)
    (agent : Agent) :
    target.agentArtifacts locale (agent.withSource source) = target.agentArtifacts locale agent := by
  cases target <;> rfl

theorem sharedArtifacts_map_withSource (target : Target) (locale : Locale) (source : Source)
    (agents : List Agent) :
    target.sharedArtifacts locale (agents.map (Agent.withSource source)) =
      target.sharedArtifacts locale agents := by
  have primary (path : String) (rendering : Agent → String)
      (blind : ∀ agent, rendering (agent.withSource source) = rendering agent) :
      Artifact.ofPrimary (agents.map (Agent.withSource source)) path rendering =
        Artifact.ofPrimary agents path rendering := by
    rw [Artifact.ofPrimary, Agent.primary?_map_withSource]
    cases found : Agent.primary? agents with
    | none => simp [Artifact.ofPrimary, found]
    | some agent => simp [Artifact.ofPrimary, found, blind]
  have manifest (path : String) :
      Artifact.modeManifest (agents.map (Agent.withSource source)) path =
        Artifact.modeManifest agents path := by
    have mode : Rendering.mode ∘ Agent.withSource source = Rendering.mode := rfl
    rw [Artifact.modeManifest, Artifact.modeManifest, List.isEmpty_map, Rendering.modeManifest,
      Rendering.modeManifest, List.map_map, mode]
  cases target
  case roo => exact manifest _
  case cline => exact manifest _
  case windsurf => exact primary _ _ fun agent => rfl
  case trae => exact primary _ _ fun agent => rfl
  case copilot => exact primary _ _ fun agent => rfl
  all_goals rfl

theorem plan_map_withSource (target : Target) (locale : Locale) (source : Source)
    (agents : List Agent) :
    target.plan locale (agents.map (Agent.withSource source)) = target.plan locale agents := by
  simp only [plan, List.flatMap_map, agentArtifacts_withSource, sharedArtifacts_map_withSource]

/-- Agents that differ in their sources only have one plan. -/
theorem plan_of_withSource (source : Source)
    (same : others.map (Agent.withSource source) = agents.map (Agent.withSource source))
    (target : Target) (locale : Locale) : target.plan locale others = target.plan locale agents := by
  rw [← plan_map_withSource target locale source, same, plan_map_withSource]

end Target

end AgentKit
