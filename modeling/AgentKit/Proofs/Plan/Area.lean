/-
# The areas of targets

Every target has an area of its own below the root of a project: the directories for the
files of agents and the file that it keeps for a whole list. All planned paths lie in the
area of their target and go straight down to it. The areas of two targets have no place
in common, and none lies in the directory of the toolkit.

An installation that succeeds therefore changes no file outside of the area, wherever the
root leads. Directories on the way may be new.
-/

import AgentKit.Proofs.Delivery.Touching
import AgentKit.Proofs.Plan.Installed
import AgentKit.Proofs.Plan.Neutral

namespace AgentKit.Target

open Files (Location Tree)
open Files.Tree (SameFile)

/-! ## What belongs to a target -/

/-- The directories for files of agents, and the path of the file for a whole list. -/
def area (target : Target) : List Path :=
  target.places.map (·.2) ++ target.sharedPath?.toList

/-- The names that lead from the root of a project to a place in the area of a target: to
one inside of a directory for files of agents, or to the file for a whole list. -/
def Owns (target : Target) (way : Location) : Prop :=
  (∃ place ∈ target.places, ∃ below, below ≠ [] ∧ way = place.2.moves ++ below) ∨
    ∃ path ∈ target.sharedPath?, way = path.moves

/-- A path makes a move with each of its parts, never upwards, and ends in the area of a
target. -/
structure Contains (target : Target) (path : Path) : Prop where
  ordinary : path.IsOrdinary
  parts : ∀ part ∈ path.parts, part ≠ "" ∧ part ≠ "." ∧ part ≠ ".."
  owned : target.Owns path.moves

variable {target other : Target} {way : Location} {locale : Locale} {agents : List Agent}
  {agent : Agent} {artifact : Artifact} {naming : Naming}

theorem mem_all (target : Target) : target ∈ all := by
  cases target <;> decide

/-- No part of the area of a target lies in a part of the area of another. -/
theorem not_prefix_area (different : target ≠ other) :
    ∀ path ∈ target.area, ∀ path' ∈ other.area, ¬ path.moves <+: path'.moves := by
  have table : ∀ target ∈ all, ∀ other ∈ all, target ≠ other →
      ∀ path ∈ target.area, ∀ path' ∈ other.area, ¬ path.moves <+: path'.moves := by
    decide +kernel
  exact table target target.mem_all other other.mem_all different

theorem head?_moves_area (target : Target) :
    ∀ path ∈ target.area, path.moves.head? ≠ some toolkitDirectory ∧ path.moves ≠ [] := by
  cases target <;> decide +kernel

/-- A place in an area lies at or below one of the paths of the area. -/
theorem Owns.exists_path (owns : target.Owns way) : ∃ path ∈ target.area, path.moves <+: way := by
  rcases owns with ⟨place, known, below, _, rfl⟩ | ⟨path, shared, rfl⟩
  · exact ⟨place.2, List.mem_append_left _ (List.mem_map_of_mem known), List.prefix_append _ _⟩
  · exact ⟨path, List.mem_append_right _ (by simpa using shared), List.prefix_rfl⟩

/-- No place is in the areas of two targets. -/
theorem Owns.not_owns (owns : target.Owns way) (different : target ≠ other) :
    ¬ other.Owns way := by
  intro also
  obtain ⟨path, member, begins⟩ := owns.exists_path
  obtain ⟨path', member', begins'⟩ := also.exists_path
  rcases List.prefix_or_prefix_of_prefix begins begins' with inside | inside
  · exact not_prefix_area different path member path' member' inside
  · exact not_prefix_area different.symm path' member' path member inside

/-- No place of an area is in the directory of the toolkit. -/
theorem Owns.not_toolkit (owns : target.Owns way) : ¬ [toolkitDirectory] <+: way := by
  intro inside
  obtain ⟨path, member, begins⟩ := owns.exists_path
  obtain ⟨elsewhere, moving⟩ := target.head?_moves_area path member
  obtain ⟨first, others, moves⟩ := List.exists_cons_of_ne_nil moving
  obtain ⟨rest, rfl⟩ := inside
  rw [moves, List.singleton_append, List.cons_prefix_cons] at begins
  exact elsewhere (by rw [moves, List.head?_cons, begins.1])

/-! ## Planned paths -/

/-- The parts of a path below a directory are those of both. -/
theorem parts_append_slash_of_moves {above below : Path} (first : above.parts = above.moves)
    (second : below.parts = below.moves) :
    Path.parts (above ++ "/" ++ below) = Path.moves (above ++ "/" ++ below) := by
  rw [Path.parts_append_slash, Path.moves_append_slash, first, second]

/-- Every part of the name of a file is a move. -/
theorem parts_fileName (target : Target) (plain : '/' ∉ agent.stem.toList) (naming : Naming) :
    (target.fileName agent naming).parts = (target.fileName agent naming).moves := by
  have file : Path.parts "SKILL.md" = Path.moves "SKILL.md" := by decide
  have single {name : String} (moves : Path.moves name = [name]) :
      Path.parts name = Path.moves name := by
    have inside : name ∈ Path.moves name := moves ▸ List.mem_singleton_self name
    rw [moves]
    exact Path.parts_of_not_mem (Path.not_slash_of_mem_parts (List.mem_of_mem_filter inside))
  cases naming with
  | own => exact single (moves_fileName_own plain)
  | subagent => exact single (moves_fileName_subagent target agent)
  | skill =>
      have moves := moves_fileName_skill target agent
      rw [fileName] at moves ⊢
      by_cases nameless : agent.skillName = ""
      · simpa [nameless] using file
      · rw [if_neg (by simpa using nameless)] at moves ⊢
        rw [if_neg nameless] at moves
        have name : '/' ∉ agent.skillName.toList := slash_notMem_skillNameOf agent.slug
        rw [moves, Path.parts_append_slash, Path.parts_of_not_mem name, file]
        rfl

theorem parts_area (target : Target) : ∀ path ∈ target.area, path.parts = path.moves := by
  cases target <;> decide +kernel

/-- The planned files of an agent lie in the area of the target. -/
theorem contains_agentArtifacts (plain : '/' ∉ agent.stem.toList)
    (member : artifact ∈ target.agentArtifacts locale agent) :
    artifact.path.parts = artifact.path.moves ∧ target.Owns artifact.path.moves := by
  obtain ⟨place, placed⟩ := exists_place member
  obtain ⟨known, path⟩ := of_mem_placed placed
  constructor
  · rw [path]
    exact parts_append_slash_of_moves
      (target.parts_area place.2 (List.mem_append_left _ (List.mem_map_of_mem known)))
      (target.parts_fileName plain place.1)
  · rw [moves_of_mem_placed placed]
    exact .inl ⟨place, known, _, (target.isNeutral_fileName plain place.1).1, rfl⟩

theorem contains_sharedArtifacts (member : artifact ∈ target.sharedArtifacts locale agents) :
    artifact.path.parts = artifact.path.moves ∧ target.Owns artifact.path.moves := by
  have shared := sharedPath?_of_mem member
  exact ⟨target.parts_area _ (List.mem_append_right _ (by simp [shared])),
    .inr ⟨artifact.path, shared, rfl⟩⟩

/-- All planned files lie in the area of the target. -/
theorem contains_plan (plain : ∀ agent ∈ agents, '/' ∉ agent.stem.toList)
    (member : artifact ∈ target.plan locale agents) : target.Contains artifact.path := by
  have ordinary := target.isOrdinary_plan locale plain artifact member
  obtain ⟨parts, owned⟩ :
      artifact.path.parts = artifact.path.moves ∧ target.Owns artifact.path.moves := by
    rcases List.mem_append.mp member with own | shared
    · obtain ⟨agent, inside, found⟩ := List.mem_flatMap.mp own
      exact contains_agentArtifacts (plain agent inside) found
    · exact contains_sharedArtifacts shared
  refine ⟨ordinary, fun part inside => ?_, owned⟩
  rw [parts] at inside
  have counts := (List.mem_filter.mp inside).2
  simp only [Path.isIdle, Bool.not_or, Bool.and_eq_true, Bool.not_eq_true', decide_eq_false_iff_not]
    at counts
  exact ⟨counts.1, counts.2, fun up => ordinary.not_up (up ▸ inside)⟩

/-- A path in an area has no parts but its moves. -/
theorem Contains.parts_eq_moves {path : Path} (contains : target.Contains path) :
    path.parts = path.moves := by
  refine (List.filter_eq_self.mpr fun part inside => ?_).symm
  obtain ⟨filled, other, _⟩ := contains.parts part inside
  simp [Path.isIdle, filled, other]

/-! ## Installed files -/

/-- What an installation of a target leaves alone. -/
structure Spares (target : Target) (root : Path) (before after : Tree) : Prop where
  /-- No file is made, changed or lost outside of the area. -/
  outside : ∀ location,
    (∀ base, after.reach root = .ok base → ∀ way, target.Owns way → location ≠ base ++ way) →
    SameFile before after location
  /-- The settings, the overrides and whatever else is in the directory of the toolkit. -/
  toolkit : ∀ base, after.reach root = .ok base →
    ∀ way, [toolkitDirectory] <+: way → SameFile before after (base ++ way)
  /-- The files of other targets. -/
  others : ∀ base, after.reach root = .ok base →
    ∀ other, other ≠ target → ∀ way, other.Owns way → SameFile before after (base ++ way)

theorem spares_of_install {root : Path} {before after : Tree} {outcomes : List Delivered}
    (plain : ∀ agent ∈ agents, '/' ∉ agent.stem.toList)
    (installed : target.install agents locale root before = (after, .ok outcomes)) :
    target.Spares root before after := by
  have touches := Delivery.touches_deliver (target.isOrdinary_plan locale plain) root before
  rw [install_eq_deliver] at installed
  rw [installed] at touches
  have outside (location : Location)
      (elsewhere : ∀ base, after.reach root = .ok base →
        ∀ way, target.Owns way → location ≠ base ++ way) : SameFile before after location :=
    touches.sameFile fun base reached artifact member =>
      elsewhere base reached _ (contains_plan plain member).owned
  refine ⟨outside, fun base reached way inside => ?_,
    fun base reached other different way owns => ?_⟩
  · refine outside _ fun base' reached' way' owned same => ?_
    obtain rfl := Except.ok.inj (reached.symm.trans reached')
    exact owned.not_toolkit (List.append_cancel_left same ▸ inside)
  · refine outside _ fun base' reached' way' owned same => ?_
    obtain rfl := Except.ok.inj (reached.symm.trans reached')
    exact owns.not_owns different (List.append_cancel_left same ▸ owned)

/-- Of the agents that were loaded, every planned path goes straight down into the area of
its target, which shares no place with the area of another target or the directory of the
toolkit; and an installation that succeeds changes no file outside of the area. -/
theorem contained_of_load {request : LoadRequest} {source : Tree} {roster : Roster}
    (loaded : request.load source = .ok roster) (target : Target) (locale : Locale) :
    (∀ artifact ∈ target.plan locale roster.agents, target.Contains artifact.path) ∧
      (∀ way, target.Owns way → ¬ [toolkitDirectory] <+: way ∧
        ∀ other, other ≠ target → ¬ other.Owns way) ∧
      ∀ root before after outcomes,
        target.install roster.agents locale root before = (after, .ok outcomes) →
          target.Spares root before after := by
  have plain : ∀ agent ∈ roster.agents, '/' ∉ agent.stem.toList :=
    fun agent => LoadRequest.slash_notMem_stem loaded
  exact ⟨fun artifact => contains_plan plain,
    fun way owns => ⟨owns.not_toolkit, fun other different => owns.not_owns different.symm⟩,
    fun root before after outcomes => spares_of_install plain⟩

/-- A project with settings and a file of another target. -/
def settledTree : Tree where
  entries :=
    [([toolkitDirectory], .directory),
     ([toolkitDirectory, "config.yaml"], .file (.text "version: 1\n")),
     (["prompts"], .directory), (["prompts", "a-b.txt"], .file (.text "old"))]
  workingDirectory := []

/-- An installation of the twins for one target keeps both files. -/
theorem contained_twins :
    (antigravity.install twins .english "." settledTree).1.find?
        [toolkitDirectory, "config.yaml"] = some (.file (.text "version: 1\n")) ∧
      (antigravity.install twins .english "." settledTree).1.find? ["prompts", "a-b.txt"] =
        some (.file (.text "old")) := by
  obtain ⟨roster, loaded, agents⟩ := load_twinTree
  have done : (antigravity.install twins .english "." settledTree).2 =
      .ok [⟨".agent/skills/a-b/SKILL.md", false⟩] := by decide +kernel
  have reached : (antigravity.install twins .english "." settledTree).1.reach "." = .ok [] := by
    decide +kernel
  have spares := (contained_of_load loaded antigravity .english).2.2 "." settledTree _ _
    (Prod.ext rfl (agents ▸ done))
  rw [agents] at spares
  refine ⟨(spares.toolkit [] reached _ (by decide) _).mpr (by decide), ?_⟩
  exact (spares.others [] reached web (by decide) _
    (.inl ⟨_, List.mem_cons_self, ["a-b.txt"], by decide, by decide +kernel⟩) _).mpr (by decide)

end AgentKit.Target
