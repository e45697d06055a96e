/-
# Markers of targets

A target counts as installed where its marker is there: the first name on the way to one
of its files. Every plan for some agent has such a file, and no way into the area of
another target begins with the marker.

So a target that was installed is detected, whatever the root and the tree, and it makes
no other target appear.
-/

import AgentKit.Proofs.Files.Below
import AgentKit.Proofs.Plan.Area

namespace AgentKit.Target

open Files (Location Tree)
open Delivery (Repeatable)

variable {target other : Target} {way : Location} {locale : Locale} {agents : List Agent}
  {root : Path} {tree : Tree}

/-- A marker is the name of an entry. -/
theorem isName_marker (target : Target) :
    Files.isName target.marker ∧ target.marker.utf8ByteSize ≤ Files.nameLimit := by
  cases target <;> decide +kernel

/-- The ways into the area of a target begin with no marker but its own. -/
theorem eq_of_mem_area {path : Path} (member : path ∈ target.area)
    (begins : path.moves.head? = some other.marker) : other = target := by
  have table : ∀ target ∈ all, ∀ path ∈ target.area, ∀ other ∈ all,
      path.moves.head? = some other.marker → other = target := by
    decide +kernel
  exact table target target.mem_all path member other other.mem_all begins

theorem Owns.eq_of_marker (owns : target.Owns way) (begins : [other.marker] <+: way) :
    other = target := by
  obtain ⟨path, member, inside⟩ := owns.exists_path
  obtain ⟨first, others, moves⟩ :=
    List.exists_cons_of_ne_nil (target.head?_moves_area path member).2
  refine eq_of_mem_area member ?_
  obtain ⟨rest, rfl⟩ := begins
  rw [moves, List.singleton_append, List.cons_prefix_cons] at inside
  rw [moves, List.head?_cons, inside.1]

/-! ## Marked files -/

/-- A list with an agent has one that stands for it. -/
theorem exists_primary (some_agent : agents ≠ []) :
    ∃ agent, Agent.primary? agents = some agent := by
  obtain ⟨first, others, rfl⟩ := List.exists_cons_of_ne_nil some_agent
  cases coder : (first :: others).find? Agent.isCoder with
  | some agent => exact ⟨agent, by rw [Agent.primary?, coder, Option.some_or]⟩
  | none => exact ⟨first, by rw [Agent.primary?, coder, Option.none_or, List.head?_cons]⟩

/-- The ways into the area of a target begin with its marker at one of the directories for
files of agents, or else at the file of the agent that stands for the list. -/
theorem exists_marked_place (target : Target) :
    (∃ place ∈ target.places, place.2.moves.head? = some target.marker) ∨
      ∃ path : Path, path.moves.head? = some target.marker ∧ ∃ rendering : Agent → String,
        ∀ locale agents, target.sharedArtifacts locale agents =
          Artifact.ofPrimary agents path rendering := by
  cases target with
  | windsurf => exact .inr ⟨_, by decide, _, fun _ _ => rfl⟩
  | trae => exact .inr ⟨_, by decide, _, fun _ _ => rfl⟩
  | gemini | claude | cursor | kilo | opencode | antigravity | roo | cline | copilot | web =>
      exact .inl (by decide)

/-- Every plan for some agent has a file behind the marker. -/
theorem exists_marked (target : Target) (locale : Locale) (some_agent : agents ≠ []) :
    ∃ artifact ∈ target.plan locale agents, artifact.path.moves.head? = some target.marker := by
  rcases target.exists_marked_place with ⟨place, known, marked⟩ | ⟨path, marked, rendering, shared⟩
  · obtain ⟨agent, others, rfl⟩ := List.exists_cons_of_ne_nil some_agent
    have listed : place.2 ++ "/" ++ target.fileName agent place.1 ∈
        (target.agentArtifacts locale agent).map (·.path) := by
      rw [paths_agentArtifacts]
      exact List.mem_map_of_mem known
    obtain ⟨artifact, member, path⟩ := List.mem_map.mp listed
    refine ⟨artifact, List.mem_append_left _ ?_, ?_⟩
    · exact List.mem_flatMap.mpr ⟨agent, List.mem_cons_self, member⟩
    · rw [path, Path.moves_append_slash, List.head?_append, marked, Option.some_or]
  · obtain ⟨agent, stands⟩ := exists_primary some_agent
    refine ⟨⟨path, rendering agent⟩, List.mem_append_right _ ?_, marked⟩
    rw [shared, Artifact.ofPrimary, stands]
    exact List.mem_singleton_self _

/-- A target whose files are all there is detected. -/
theorem isDetected_of_repeatable (plain : ∀ agent ∈ agents, '/' ∉ agent.stem.toList)
    (some_agent : agents ≠ [])
    (repeatable : Repeatable root (target.plan locale agents) tree) :
    isDetected tree root target := by
  obtain ⟨artifact, planned, marked⟩ := target.exists_marked locale some_agent
  obtain ⟨last, kept, clash⟩ := Delivery.exists_kept planned
  have planned' := (Delivery.keepLast_sublist _).subset kept
  have contains := contains_plan plain planned'
  have moves := moves_eq_of_clash (contains_plan plain planned).ordinary contains.ordinary clash
  rw [moves, ← contains.parts_eq_moves] at marked
  obtain ⟨more, whole⟩ := List.head?_eq_some_iff.mp marked
  obtain ⟨place, content, leads, found⟩ := repeatable.files last kept
  obtain ⟨named, short⟩ := target.isName_marker
  exact Tree.isThere_first named short contains.ordinary whole leads found

theorem mem_detect_iff : target ∈ detect tree root ↔ isDetected tree root target := by
  rw [detect, List.mem_filter]
  exact and_iff_right target.mem_all

end AgentKit.Target
