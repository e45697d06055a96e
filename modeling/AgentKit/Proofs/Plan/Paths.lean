/-
# Where plans put files

Every target keeps the files of an agent in directories of its own, at most one file in
each. A file is named by the slug or the stem of the agent, which no other agent of a
roster shares, or by its skill name, which others may share. So two planned files can
only be for one path if both are named by one skill name.

The directories of a target do not contain each other, and the files that it keeps for
a whole list of agents lie outside of them.
-/

import AgentKit.Plan
import AgentKit.Proofs.Agent.Identifier
import AgentKit.Proofs.Files.Path

namespace AgentKit

/-- How a file of an agent is named. -/
inductive Naming where
  /-- By the slug, or by the stem where a target keeps stems. -/
  | own
  /-- As the skill with the skill name. -/
  | skill
  /-- By the skill name. -/
  | subagent
  deriving DecidableEq

/-- Whether agents with one skill name share a file. -/
def Naming.bySkill : Naming → Bool
  | .own => false
  | .skill | .subagent => true

namespace Target

/-- The files that a target keeps for an agent, in the order of the plan: how each of
them is named, and the directory for it. -/
def places : Target → List (Naming × Path)
  | .gemini => [(.own, ".gemini/commands/dev"), (.skill, ".gemini/skills")]
  | .claude =>
    [(.own, ".claude/commands/agents"), (.skill, ".claude/skills"), (.subagent, ".claude/agents")]
  | .cursor => [(.own, ".cursor/commands"), (.skill, ".cursor/skills")]
  | .kilo => [(.own, ".kilocode/workflows"), (.skill, ".kilocode/skills")]
  | .opencode => [(.skill, ".opencode/skills"), (.subagent, ".opencode/agents")]
  | .antigravity => [(.skill, ".agent/skills")]
  | .roo => [(.skill, ".roo/skills")]
  | .cline => [(.own, ".cline")]
  | .windsurf | .trae => []
  | .copilot => [(.own, ".github/agents")]
  | .web => [(.own, "prompts")]

/-- The extension of the files that are named by slugs or stems. -/
def extension : Target → String
  | .gemini => ".toml"
  | .cursor => ".mdc"
  | .web => ".txt"
  | .claude | .kilo | .opencode | .antigravity | .roo | .cline | .windsurf | .trae | .copilot =>
    ".md"

/-- The name by which a target knows an agent alone. -/
def ownName (target : Target) (agent : Agent) : String :=
  if target = .gemini then agent.stem else agent.slug

/-- The path of a file of an agent below the directory for it. -/
def fileName (target : Target) (agent : Agent) : Naming → Path
  | .own => target.ownName agent ++ target.extension
  | .skill => (if agent.skillName.isEmpty then "" else agent.skillName ++ "/") ++ "SKILL.md"
  | .subagent => agent.skillName ++ ".md"

/-- The files of an agent lie where the table of places says. -/
theorem paths_agentArtifacts (target : Target) (locale : Locale) (agent : Agent) :
    (target.agentArtifacts locale agent).map (·.path) =
      target.places.map fun place => place.2 ++ "/" ++ target.fileName agent place.1 := by
  have injective : Function.Injective String.toList := fun _ _ same => String.toList_inj.mp same
  apply List.map_injective_iff.mpr injective
  cases target <;>
    simp [agentArtifacts, places, fileName, ownName, extension, Artifact.skill,
      Artifact.skillPath]

/-! ## Directories -/

theorem nodup_places (target : Target) : target.places.Nodup := by
  cases target <;> decide

/-- No directory for files of agents contains another one. -/
theorem not_prefix_places (target : Target) :
    ∀ place ∈ target.places, ∀ other ∈ target.places, place ≠ other →
      ¬ place.2.moves <+: other.2.moves := by
  cases target <;> decide +kernel

theorem isOrdinary_places (target : Target) :
    ∀ place ∈ target.places, place.2.IsOrdinary ∧ place.2 ≠ "" := by
  cases target <;> decide +kernel

/-! ## Names of files -/

/-- A text of three characters or more is a part of a path that leads to an entry. -/
theorem counts_of_length {name : String} (long : 3 ≤ name.length) :
    ¬ Path.isIdle name ∧ name ≠ ".." := by
  refine ⟨fun idle => ?_, ?_⟩
  · simp only [Path.isIdle, Bool.or_eq_true, decide_eq_true_eq] at idle
    rcases idle with rfl | rfl <;> exact absurd long (by decide)
  · rintro rfl
    exact absurd long (by decide)

theorem extension_spec (target : Target) :
    '/' ∉ target.extension.toList ∧ 3 ≤ target.extension.length := by
  cases target <;> decide

variable {target : Target} {agent other : Agent} {naming : Naming}

theorem slash_notMem_ownName (target : Target) (plain : '/' ∉ agent.stem.toList) :
    '/' ∉ (target.ownName agent).toList := by
  rw [ownName]
  split
  · exact plain
  · exact slash_notMem_slugOf plain

theorem moves_fileName_own (plain : '/' ∉ agent.stem.toList) :
    (target.fileName agent .own).moves = [target.ownName agent ++ target.extension] := by
  obtain ⟨slash, long⟩ := target.extension_spec
  rw [fileName]
  refine Path.moves_of_not_mem ?_ (counts_of_length ?_).1
  · rw [String.toList_append, List.mem_append, not_or]
    exact ⟨target.slash_notMem_ownName plain, slash⟩
  · rw [String.length_append]
    omega

theorem moves_fileName_subagent (target : Target) (agent : Agent) :
    (target.fileName agent .subagent).moves = [agent.skillName ++ ".md"] := by
  rw [fileName]
  refine Path.moves_of_not_mem ?_ (counts_of_length ?_).1
  · rw [String.toList_append, List.mem_append, not_or]
    exact ⟨slash_notMem_skillNameOf _, by decide⟩
  · rw [String.length_append, show ".md".length = 3 by decide]
    omega

theorem moves_fileName_skill (target : Target) (agent : Agent) :
    (target.fileName agent .skill).moves =
      if agent.skillName = "" then ["SKILL.md"] else [agent.skillName, "SKILL.md"] := by
  have file : Path.moves "SKILL.md" = ["SKILL.md"] := by decide
  rw [fileName]
  by_cases nameless : agent.skillName = ""
  · simp [nameless, file]
  · have counts : ¬ Path.isIdle agent.skillName := by
      intro idle
      simp only [Path.isIdle, Bool.or_eq_true, decide_eq_true_eq, nameless, false_or] at idle
      have stop := stop_notMem_skillNameOf agent.slug
      rw [← Agent.skillName, idle] at stop
      exact stop (by decide)
    have single : Path.moves agent.skillName = [agent.skillName] :=
      Path.moves_of_not_mem (slash_notMem_skillNameOf _) counts
    rw [if_neg (by simpa using nameless), if_neg nameless, Path.moves_append_slash, file, single]
    rfl

/-- A file name never leads upwards. -/
theorem not_up_fileName (target : Target) (plain : '/' ∉ agent.stem.toList) (naming : Naming) :
    ".." ∉ (target.fileName agent naming).moves := by
  have long (name extension : String) (three : 3 ≤ extension.length) :
      ".." ∉ [name ++ extension] := by
    rw [List.mem_singleton]
    refine Ne.symm (counts_of_length ?_).2
    rw [String.length_append]
    omega
  cases naming with
  | own =>
      rw [moves_fileName_own plain]
      exact long _ _ target.extension_spec.2
  | skill =>
      rw [moves_fileName_skill]
      split
      · decide
      · intro inside
        rcases List.mem_cons.mp inside with here | later
        · have stop := stop_notMem_skillNameOf agent.slug
          rw [← Agent.skillName, ← here] at stop
          exact stop (by decide)
        · exact absurd later (by decide)
  | subagent =>
      rw [moves_fileName_subagent]
      exact long _ _ (by decide)

/-- Two agents have one file of a kind only if they have the same slug, or the same skill
name where the file is named by it. -/
theorem eq_of_moves_fileName_eq (plain : '/' ∉ agent.stem.toList)
    (also : '/' ∉ other.stem.toList)
    (same : (target.fileName agent naming).moves = (target.fileName other naming).moves) :
    if naming.bySkill then agent.skillName = other.skillName else agent.slug = other.slug := by
  cases naming with
  | own =>
      rw [moves_fileName_own plain, moves_fileName_own also, List.cons.injEq] at same
      have names : target.ownName agent = target.ownName other := by simpa using same.1
      rw [Naming.bySkill, if_neg (by decide)]
      unfold ownName at names
      split at names
      · rw [Agent.slug, Agent.slug, names]
      · exact names
  | skill =>
      rw [moves_fileName_skill, moves_fileName_skill] at same
      rw [Naming.bySkill, if_pos rfl]
      split at same <;> split at same
      · next nameless nameless' => rw [nameless, nameless']
      · simp at same
      · simp at same
      · exact (List.cons.inj same).1
  | subagent =>
      rw [moves_fileName_subagent, moves_fileName_subagent, List.cons.injEq] at same
      rw [Naming.bySkill, if_pos rfl]
      simpa using same.1

/-! ## Planned files -/

/-- The artifacts of an agent with the places for them. -/
def placed (target : Target) (locale : Locale) (agent : Agent) :
    List ((Naming × Path) × Artifact) :=
  target.places.zip (target.agentArtifacts locale agent)

/-- The artifacts of an agent that are named by the skill name, or those that are not. -/
def namedBySkill (target : Target) (bySkill : Bool) (locale : Locale) (agent : Agent) :
    List Artifact :=
  ((target.placed locale agent).filter (·.1.1.bySkill == bySkill)).map (·.2)

variable {locale : Locale} {artifact : Artifact} {place : Naming × Path}

theorem length_agentArtifacts (target : Target) (locale : Locale) (agent : Agent) :
    (target.agentArtifacts locale agent).length = target.places.length := by
  have lengths := congrArg List.length (paths_agentArtifacts target locale agent)
  rwa [List.length_map, List.length_map] at lengths

theorem map_snd_placed (target : Target) (locale : Locale) (agent : Agent) :
    (target.placed locale agent).map (·.2) = target.agentArtifacts locale agent :=
  List.map_snd_zip (by rw [length_agentArtifacts])

theorem of_mem_placed (member : (place, artifact) ∈ target.placed locale agent) :
    place ∈ target.places ∧ artifact.path = place.2 ++ "/" ++ target.fileName agent place.1 := by
  refine ⟨(List.of_mem_zip member).1, ?_⟩
  have left : (target.placed locale agent).map (·.1) = target.places :=
    List.map_fst_zip (by rw [length_agentArtifacts])
  have paths := paths_agentArtifacts target locale agent
  rw [← map_snd_placed, ← left, List.map_map, List.map_map] at paths
  exact List.map_inj_left.mp paths _ member

theorem exists_place (member : artifact ∈ target.agentArtifacts locale agent) :
    ∃ place, (place, artifact) ∈ target.placed locale agent := by
  rw [← map_snd_placed] at member
  obtain ⟨⟨place, also⟩, inside, rfl⟩ := List.mem_map.mp member
  exact ⟨place, inside⟩

theorem mem_namedBySkill_iff {bySkill : Bool} :
    artifact ∈ target.namedBySkill bySkill locale agent ↔
      ∃ place, (place, artifact) ∈ target.placed locale agent ∧ place.1.bySkill = bySkill := by
  simp [namedBySkill]

theorem moves_of_mem_placed (member : (place, artifact) ∈ target.placed locale agent) :
    artifact.path.moves = place.2.moves ++ (target.fileName agent place.1).moves := by
  rw [(of_mem_placed member).2, Path.moves_append_slash]

/-- The paths of planned files of agents are ordinary. -/
theorem isOrdinary_agentArtifacts (plain : '/' ∉ agent.stem.toList)
    (member : artifact ∈ target.agentArtifacts locale agent) : artifact.path.IsOrdinary := by
  obtain ⟨place, inside⟩ := exists_place member
  obtain ⟨known, path⟩ := of_mem_placed inside
  obtain ⟨ordinary, named⟩ := target.isOrdinary_places place known
  rw [path]
  exact ordinary.append_slash named (target.not_up_fileName plain _)

/-- Files of agents for one path have one place, and there the agents have one name. -/
theorem of_moves_eq {place' : Naming × Path} {artifact' : Artifact}
    (plain : '/' ∉ agent.stem.toList) (also : '/' ∉ other.stem.toList)
    (member : (place, artifact) ∈ target.placed locale agent)
    (member' : (place', artifact') ∈ target.placed locale other)
    (same : artifact.path.moves = artifact'.path.moves) :
    place = place' ∧
      if place.1.bySkill then agent.skillName = other.skillName else agent.slug = other.slug := by
  have known := (of_mem_placed member).1
  have known' := (of_mem_placed member').1
  rw [moves_of_mem_placed member, moves_of_mem_placed member'] at same
  obtain rfl : place = place' := by
    by_contra different
    rcases List.prefix_or_prefix_of_prefix (List.prefix_append place.2.moves _)
      (same ▸ List.prefix_append place'.2.moves _) with inside | inside
    · exact target.not_prefix_places place known place' known' different inside
    · exact target.not_prefix_places place' known' place known (Ne.symm different) inside
  exact ⟨rfl, eq_of_moves_fileName_eq plain also (List.append_cancel_left same)⟩

/-! ## Shared files -/

/-- The path of the file that a target keeps for a whole list of agents. -/
def sharedPath? : Target → Option Path
  | .roo => some "roo_custom_modes.json"
  | .cline => some "cline_custom_modes.json"
  | .windsurf => some ".windsurfrules"
  | .trae => some ".trae/instructions.md"
  | .copilot => some ".github/copilot-instructions.md"
  | .gemini | .claude | .cursor | .kilo | .opencode | .antigravity | .web => none

variable {agents : List Agent}

/-- A target keeps at most one file for a whole list. -/
theorem paths_sharedArtifacts (target : Target) (locale : Locale) (agents : List Agent) :
    (target.sharedArtifacts locale agents).map (·.path) = [] ∨
      (target.sharedArtifacts locale agents).map (·.path) = target.sharedPath?.toList := by
  have manifest (path : Path) : (Artifact.modeManifest agents path).map (·.path) = [] ∨
      (Artifact.modeManifest agents path).map (·.path) = [path] := by
    unfold Artifact.modeManifest
    split
    · exact .inl rfl
    · exact .inr rfl
  have primary (path : Path) (rendering : Agent → String) :
      (Artifact.ofPrimary agents path rendering).map (·.path) = [] ∨
        (Artifact.ofPrimary agents path rendering).map (·.path) = [path] := by
    unfold Artifact.ofPrimary
    cases Agent.primary? agents with
    | none => exact .inl rfl
    | some agent => exact .inr rfl
  cases target with
  | roo | cline => exact manifest _
  | windsurf | trae | copilot => exact primary _ _
  | gemini | claude | cursor | kilo | opencode | antigravity | web => exact .inl rfl

theorem sharedPath?_of_mem (member : artifact ∈ target.sharedArtifacts locale agents) :
    target.sharedPath? = some artifact.path := by
  have inside : artifact.path ∈ (target.sharedArtifacts locale agents).map (·.path) :=
    List.mem_map_of_mem member
  rcases paths_sharedArtifacts target locale agents with none | one
  · rw [none] at inside
    cases inside
  · rw [one] at inside
    simpa using inside

/-- Shared files lie outside of the directories for the files of agents, on ordinary
paths. -/
theorem sharedPath?_spec (target : Target) :
    ∀ path ∈ target.sharedPath?, path.IsOrdinary ∧
      ∀ place ∈ target.places, ¬ place.2.moves <+: path.moves := by
  cases target <;> decide +kernel

end Target

end AgentKit
