/-
# Deliveries that share no path

A delivery that succeeds holds its artifacts, and it tells which of their files were there
before. Another delivery changes neither if no path is for artifacts of both, whether it
comes earlier or later. So both can be said in terms of the trees before the first and
after the last of several deliveries.
-/

import AgentKit.Proofs.Delivery.Touching

namespace AgentKit.Delivery

open Files (Tree Location)
open Files.Tree (KeepsDirectories)

variable {root path : Path} {artifacts more : List Artifact} {before middle after : Tree}
  {base : Location} {outcomes : List Delivered}

/-- Every kept artifact is in its file. -/
def Holds (root : Path) (artifacts : List Artifact) (tree : Tree) : Prop :=
  ∀ artifact ∈ keepLast artifacts, ∃ base, tree.reach root = .ok base ∧
    tree.find? (base ++ artifact.path.moves) = some (.file (.text artifact.content))

/-- No path is for an artifact of both plans. -/
def Separate (artifacts more : List Artifact) : Prop :=
  ∀ artifact ∈ artifacts, ∀ other ∈ more, artifact.path.moves ≠ other.path.moves

/-- Whether there was anything for a path before, seen from where the root leads
afterwards. -/
def wasThere (before after : Tree) (root path : Path) : Bool :=
  match after.reach root with
  | .ok base => (before.find? (base ++ path.moves)).isSome
  | .error _ => false

/-- What is told of artifacts. -/
def told (before after : Tree) (root : Path) (artifacts : List Artifact) : List Delivered :=
  (keepLast artifacts).map fun artifact =>
    ⟨artifact.path, wasThere before after root artifact.path⟩

theorem wasThere_of_reach (reached : after.reach root = .ok base) :
    wasThere before after root path = (before.find? (base ++ path.moves)).isSome := by
  rw [wasThere, reached]

/-- A delivery holds its artifacts and tells which of them were there. -/
theorem holds_of_deliver (ordinary : ∀ artifact ∈ artifacts, artifact.path.IsOrdinary)
    (delivered : deliver root artifacts before = (after, .ok outcomes)) :
    Holds root artifacts after ∧ outcomes = told before after root artifacts := by
  obtain ⟨ready, made, all, rfl⟩ :=
    of_deliverBy ordinary (deliver_eq_ok_iff.mp delivered)
  have grown := (makeAll_spec before (directories root (keepLast artifacts))).1
  rw [made] at grown
  refine ⟨fun artifact kept => ?_, List.map_congr_left fun artifact kept => ?_⟩
  · obtain ⟨base, reached, _, _, found⟩ := all.of_mem ordinary kept
    exact ⟨base, reached, found⟩
  · obtain ⟨base, reached, leads, free, _⟩ := all.of_mem ordinary kept
    rw [outcome, wasThere_of_reach reached, Tree.isThere_of_target? leads,
      grown.toGrown.find?_of_not_directory free]

/-- Artifacts with other paths do not change what is held. -/
theorem Holds.mono (holds : Holds root artifacts middle)
    (touches : Touches root more more middle after) (separate : Separate artifacts more) :
    Holds root artifacts after := by
  intro artifact kept
  obtain ⟨base, reached, found⟩ := holds artifact kept
  have reached := touches.reach reached
  refine ⟨base, reached,
    (touches.sameFile (fun base' reached' other member here => ?_) _).mpr found⟩
  obtain rfl := Except.ok.inj (reached.symm.trans reached')
  exact separate artifact ((keepLast_sublist _).subset kept) other member
    (List.append_cancel_left here)

/-- Artifacts with other paths do not change what is told. -/
theorem told_of_touches (touches : Touches root more more before middle)
    (keeps : KeepsDirectories middle after) (holds : Holds root artifacts after)
    (separate : Separate artifacts more) :
    told middle after root artifacts = told before after root artifacts := by
  refine List.map_congr_left fun artifact kept => ?_
  obtain ⟨base, reached, found⟩ := holds artifact kept
  rw [wasThere_of_reach reached, wasThere_of_reach reached]
  rcases touches.changes (base ++ artifact.path.moves) with
    same | ⟨base', reached', other, member, here⟩ | ⟨_, new, _⟩
  · rw [same]
  · obtain rfl := Except.ok.inj (reached.symm.trans (keeps.reach reached'))
    exact absurd (List.append_cancel_left here)
      (separate artifact ((keepLast_sublist _).subset kept) other member)
  · rw [keeps.directories _ new] at found
    simp at found

/-- What is told depends on where the root leads and on nothing else. -/
theorem told_of_keeps (keeps : KeepsDirectories middle after)
    (holds : Holds root artifacts middle) :
    told before middle root artifacts = told before after root artifacts := by
  refine List.map_congr_left fun artifact kept => ?_
  obtain ⟨base, reached, _⟩ := holds artifact kept
  rw [wasThere_of_reach reached, wasThere_of_reach (keeps.reach reached)]

end AgentKit.Delivery
