/-
# Deliveries one after the other

What one delivery leaves and what several of them leave is said in the same way: of all
artifacts in their order, the last one for a place determines what is there; other
places are as they were, except for new directories on the way. The path of the root has
to be steady: a path that leads upwards through a missing directory comes to lead
elsewhere when that directory is made.

A delivery that is repeated on what deliveries have left finds every directory and every
file, whatever was written after it.
-/

import AgentKit.Proofs.Delivery.Touching

namespace AgentKit.Delivery

open Files (Tree Location Content)
open Files.Tree (Grown KeepsDirectories)

variable {root : Path} {artifacts others : List Artifact} {artifact : Artifact}
  {before middle after : Tree} {location base : Location} {outcomes : List Delivered}

/-! ## A single artifact -/

theorem keepLast_singleton (artifact : Artifact) : keepLast [artifact] = [artifact] := by
  simp [keepLast]

theorem directories_singleton {directory : Path}
    (lies : directoryOf root artifact = some directory) :
    directories root [artifact] = [directory] := by
  simp [directories, distinct, lies]

/-- The delivery of a single artifact makes its directory and writes its file. -/
theorem deliver_singleton_eq_ok_iff {directory : Path}
    (lies : directoryOf root artifact = some directory) :
    (∃ outcomes, deliver root [artifact] before = (after, .ok outcomes)) ↔
      ∃ ready, before.makeDirectories directory = (ready, .ok ()) ∧
        ready.overwrite (root.join artifact.path) (.text artifact.content) = (after, .ok ()) := by
  simp only [deliver, keepLast_singleton, directories_singleton lies, makeAll]
  rcases before.makeDirectories directory with ⟨ready, fault | ⟨⟩⟩
  · simp
  · rcases written : ready.overwrite (root.join artifact.path) (.text artifact.content) with
      ⟨final, fault | ⟨⟩⟩
    · simp [Progress.writeAll_of_error written, written]
    · have done : writeAll root ready [artifact] = (final, .ok ()) :=
        Progress.writeAll_of_ok written []
      simp [done, written]

/-! ## What deliveries leave -/

/-- What the delivery of artifacts below a root leaves. -/
structure Leaves (root : Path) (artifacts : List Artifact) (before after : Tree) : Prop extends
    KeepsDirectories before after where
  /-- Files stay files. -/
  files : ∀ location content, before.find? location = some (.file content) →
    ∃ other, after.find? location = some (.file other)
  /-- The last artifact for a place is there. -/
  holds : ∀ artifact, IsLast artifact artifacts → ∃ base, after.reach root = .ok base ∧
    after.find? (base ++ artifact.path.moves) = some (.file (.text artifact.content))
  /-- Only places of artifacts are changed, and directories are made on the way to them. -/
  changes : ∀ location, after.find? location = before.find? location ∨
    ∃ base, after.reach root = .ok base ∧ ∃ artifact ∈ artifacts,
      location = base ++ artifact.path.moves ∨
        before.find? location = none ∧ after.find? location = some .directory ∧
          location <+: base ++ artifact.path.moves.dropLast

/-- What one delivery leaves. -/
theorem leaves_of_deliver (steady : before.Steady root)
    (ordinary : ∀ artifact ∈ artifacts, artifact.path.IsOrdinary)
    (delivered : deliver root artifacts before = (after, .ok outcomes)) :
    Leaves root artifacts before after := by
  have touches := touches_deliver ordinary root before
  have completed := completed_of_deliver ordinary delivered
  rw [delivered] at touches
  refine { toKeepsDirectories := touches.toKeepsDirectories, files := touches.files,
           holds := fun artifact last => (completed.holds artifact last).2,
           changes := fun location => ?_ }
  rcases touches.changes location with kept | ⟨base, reached, artifact, member, here⟩ |
    ⟨absent, new, artifact, member, directory, holds, above, way, led⟩
  · exact .inl kept
  · exact .inr ⟨base, reached, artifact, member, .inl here⟩
  · obtain ⟨last, kept, _⟩ := exists_kept member
    obtain ⟨_, base, reached, _⟩ := completed.holds last (mem_keepLast_iff.mp kept)
    exact .inr ⟨base, reached, artifact, member, .inr ⟨absent, new, isPrefix_of_new steady
      touches.toKeepsDirectories reached (ordinary artifact member) holds way led absent⟩⟩

namespace Leaves

theorem within (leaves : Leaves root artifacts before after) : Files.Tree.Within before after :=
  ⟨leaves.toKeepsDirectories, leaves.files⟩

theorem nil (root : Path) (tree : Tree) : Leaves root [] tree tree where
  toKeepsDirectories := .refl tree
  files _ content found := ⟨content, found⟩
  holds := by
    rintro artifact ⟨earlier, later, whole, _⟩
    simp at whole
  changes _ := .inl rfl

theorem of_isLast_append {artifact : Artifact} (last : IsLast artifact (artifacts ++ others)) :
    IsLast artifact others ∨
      IsLast artifact artifacts ∧ ∀ other ∈ others, ¬ Clash artifact other := by
  obtain ⟨earlier, later, whole, none⟩ := last
  rcases List.append_eq_append_iff.mp whole with ⟨between, rfl, rest⟩ | ⟨between, rfl, rest⟩
  · exact .inl ⟨between, later, rest, none⟩
  · cases between with
    | nil => exact .inl ⟨[], later, by simpa using rest.symm, none⟩
    | cons first between =>
        rw [List.cons_append, List.cons.injEq] at rest
        obtain ⟨rfl, rfl⟩ := rest
        exact .inr ⟨⟨earlier, between, rfl, fun other member =>
          none other (List.mem_append_left _ member)⟩,
          fun other member => none other (List.mem_append_right _ member)⟩

/-- What deliveries leave one after the other is what all their artifacts leave. -/
theorem trans (ordinary : ∀ artifact ∈ artifacts ++ others, artifact.path.IsOrdinary)
    (first : Leaves root artifacts before middle) (second : Leaves root others middle after) :
    Leaves root (artifacts ++ others) before after := by
  refine { toKeepsDirectories := first.toKeepsDirectories.trans second.toKeepsDirectories,
           files := ?_, holds := ?_, changes := ?_ }
  · intro location content found
    obtain ⟨other, found⟩ := first.files location content found
    exact second.files location other found
  · intro artifact last
    rcases of_isLast_append last with late | ⟨early, apart⟩
    · exact second.holds artifact late
    · obtain ⟨base, reached, found⟩ := first.holds artifact early
      have reached := second.toKeepsDirectories.reach reached
      refine ⟨base, reached, ?_⟩
      rcases second.changes (base ++ artifact.path.moves) with
        kept | ⟨base', reached', other, member, here | ⟨absent, _⟩⟩
      · rw [kept, found]
      · rw [reached] at reached'
        obtain rfl := Except.ok.inj reached'
        have plain := ordinary artifact (List.mem_append_left _ ?_)
        · have plain' := ordinary other (List.mem_append_right _ member)
          exact absurd (Path.same_iff.mp ((plain.same_iff plain').mpr
            (List.append_cancel_left here))) (apart other member)
        · obtain ⟨earlier, later, whole, _⟩ := early
          simp [whole]
      · rw [found] at absent
        contradiction
  · intro location
    rcases second.changes location with kept | ⟨base, reached, artifact, member, change⟩
    · rw [kept]
      refine (first.changes location).imp id ?_
      rintro ⟨base, reached, artifact, member, change⟩
      exact ⟨base, second.toKeepsDirectories.reach reached, artifact,
        List.mem_append_left _ member, change⟩
    · rcases change with here | ⟨absent, new, above⟩
      · exact .inr ⟨base, reached, artifact, List.mem_append_right _ member, .inl here⟩
      · exact .inr ⟨base, reached, artifact, List.mem_append_right _ member,
          .inr ⟨first.within.find?_eq_none absent, new, above⟩⟩

/-- Nothing is changed at a place below the root that is neither the place of an artifact
nor above one. -/
theorem find?_of_free {way : Location} (leaves : Leaves root artifacts before after)
    (reached : after.reach root = .ok base)
    (free : ∀ artifact ∈ artifacts, ¬ way <+: artifact.path.moves) :
    after.find? (base ++ way) = before.find? (base ++ way) := by
  rcases leaves.changes (base ++ way) with
    kept | ⟨base', reached', artifact, member, here | ⟨_, _, above⟩⟩
  · exact kept
  · rw [reached] at reached'
    obtain rfl := Except.ok.inj reached'
    have same := List.append_cancel_left here
    exact absurd (same ▸ List.prefix_rfl) (free artifact member)
  · rw [reached] at reached'
    obtain rfl := Except.ok.inj reached'
    rw [List.prefix_append_right_inj] at above
    exact absurd (above.trans (List.dropLast_prefix _)) (free artifact member)

/-- What is at a name below the root is as it was, unless the place or something below it is
that of an artifact. -/
theorem entryAt_join_eq_ok_iff {name : String} {entry : Files.Entry}
    (leaves : Leaves root artifacts before after) (steady : before.Steady root)
    (named : Files.isName name) (free : ∀ artifact ∈ artifacts, ¬ [name] <+: artifact.path.moves) :
    after.entryAt (root.join name) = .ok entry ↔ before.entryAt (root.join name) = .ok entry :=
  Tree.entryAt_join_congr_of_keeps named leaves.toKeepsDirectories
    (fun _ => steady.reach leaves.toKeepsDirectories)
    fun _ reached => leaves.find?_of_free reached free

end Leaves

/-! ## Repeated deliveries -/

theorem repeatable_of_deliver (ordinary : ∀ artifact ∈ artifacts, artifact.path.IsOrdinary)
    (delivered : deliver root artifacts before = (after, .ok outcomes)) :
    Repeatable root artifacts after := by
  obtain ⟨ready, made, all, _⟩ := of_deliverBy ordinary (deliver_eq_ok_iff.mp delivered)
  exact repeatable_of_allWritten made all

theorem paths_of_deliver (ordinary : ∀ artifact ∈ artifacts, artifact.path.IsOrdinary)
    (delivered : deliver root artifacts before = (after, .ok outcomes)) :
    outcomes.map (·.path) = (keepLast artifacts).map (·.path) := by
  obtain ⟨ready, _, _, rfl⟩ := of_deliverBy ordinary (deliver_eq_ok_iff.mp delivered)
  simp [outcome, Function.comp_def]

/-- Whether a single artifact can be delivered again does not depend on its content. -/
theorem repeatable_singleton_iff {directory : Path}
    (lies : directoryOf root artifact = some directory) :
    Repeatable root [artifact] before ↔
      before.IsPresent directory ∧ ∃ place content,
        before.target? (root.join artifact.path) = some place ∧
          before.find? place = some (.file content) := by
  constructor
  · rintro ⟨present, files⟩
    rw [keepLast_singleton] at present files
    rw [directories_singleton lies] at present
    exact ⟨present directory List.mem_cons_self, files artifact List.mem_cons_self⟩
  · rintro ⟨present, files⟩
    constructor
    · rw [keepLast_singleton, directories_singleton lies]
      simpa using present
    · rw [keepLast_singleton]
      simpa using files

/-- A delivery that is repeated finds every file and makes no directory. -/
theorem Repeatable.deliver (repeatable : Repeatable root artifacts before)
    (steady : before.Steady root) (ordinary : ∀ artifact ∈ artifacts, artifact.path.IsOrdinary) :
    ∃ after, AgentKit.deliver root artifacts before =
        (after, .ok ((keepLast artifacts).map fun artifact => ⟨artifact.path, true⟩)) ∧
      Leaves root artifacts before after ∧ KeepsDirectories after before := by
  obtain ⟨after, delivered, all⟩ :=
    repeatable.deliverBy ordinary (isComplete_inOrder artifacts)
  have delivered := deliver_eq_ok_iff.mpr delivered
  exact ⟨after, delivered, leaves_of_deliver steady ordinary delivered, all.adds_none⟩

/-- Deliveries that make no directory change nothing where the last artifacts for all
places are there already. -/
theorem Leaves.alike_of_holds (leaves : Leaves root artifacts before after)
    (ordinary : ∀ artifact ∈ artifacts, artifact.path.IsOrdinary)
    (adds_none : KeepsDirectories after before)
    (held : ∀ artifact, IsLast artifact artifacts → ∃ base, before.reach root = .ok base ∧
      before.find? (base ++ artifact.path.moves) = some (.file (.text artifact.content))) :
    Tree.Alike before after where
  current := leaves.current
  found location := by
    rcases leaves.changes location with
      kept | ⟨base, reached, artifact, member, here | ⟨absent, new, _⟩⟩
    · exact kept
    · obtain ⟨last, inside, clash⟩ := exists_kept member
      have last_kept := mem_keepLast_iff.mp inside
      have plain := ordinary last ((keepLast_sublist artifacts).subset inside)
      have moves := ((ordinary artifact member).same_iff plain).mp (Path.same_iff.mpr clash)
      obtain ⟨base', reached', found⟩ := held last last_kept
      obtain ⟨base'', reached'', found'⟩ := leaves.holds last last_kept
      have reached' := leaves.toKeepsDirectories.reach reached'
      rw [reached] at reached' reached''
      obtain rfl := Except.ok.inj reached'
      obtain rfl := Except.ok.inj reached''
      rw [here, moves, found, found']
    · rw [adds_none.directories location new] at absent
      contradiction

end AgentKit.Delivery
