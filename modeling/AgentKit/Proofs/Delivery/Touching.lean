/-
# What a delivery can touch

Also a delivery that fails has only made directories on the way to its artifacts and
written files at their paths, whichever step failed and in whichever order the files were
written. Everything that was there before is still there, a file as a file.

So where a later tree has all directories and files of a delivery, nothing can make the
delivery fail: every obstacle would be in the later tree as well. The tree that it leaves
lies within the later one again.
-/

import AgentKit.Proofs.Delivery.Effect
import AgentKit.Proofs.Files.Within

namespace AgentKit.Delivery

open Files (Tree Location)
open Files.Tree (Grown GrownAlong IsPresent KeepsDirectories SameFile Within)

variable {root : Path} {artifacts others made written made' written' schedule : List Artifact}
  {artifact : Artifact} {tree bound before middle ready after : Tree} {location base : Location}
  {outcomes : List Delivered}

/-! ## Changes at the paths of artifacts -/

/-- Only the files of some artifacts are changed, and directories are made on the way to
some artifacts. Nothing is lost. -/
structure Touches (root : Path) (made written : List Artifact) (before after : Tree) : Prop extends
    Within before after where
  changes : ∀ location, after.find? location = before.find? location ∨
    (∃ base, after.reach root = .ok base ∧
      ∃ artifact ∈ written, location = base ++ artifact.path.moves) ∨
    before.find? location = none ∧ after.find? location = some .directory ∧
      ∃ artifact ∈ made, ∃ directory, directoryOf root artifact = some directory ∧
        ∃ above ∈ directory.ancestors, after.reach above = .ok location

namespace Touches

theorem refl (root : Path) (made written : List Artifact) (tree : Tree) :
    Touches root made written tree tree where
  toWithin := .refl tree
  changes _ := .inl rfl

theorem mono (touches : Touches root made written before after) (more : made ⊆ made')
    (also : written ⊆ written') : Touches root made' written' before after where
  toWithin := touches.toWithin
  changes location := by
    rcases touches.changes location with kept | ⟨base, reached, artifact, member, here⟩ |
      ⟨absent, new, artifact, member, way⟩
    · exact .inl kept
    · exact .inr (.inl ⟨base, reached, artifact, also member, here⟩)
    · exact .inr (.inr ⟨absent, new, artifact, more member, way⟩)

theorem trans (first : Touches root made written before middle)
    (second : Touches root made written middle after) :
    Touches root made written before after where
  toWithin := first.toWithin.trans second.toWithin
  changes location := by
    rcases second.changes location with kept | changed | ⟨absent, new, way⟩
    · rw [kept]
      rcases first.changes location with old | ⟨base, reached, planned⟩ |
        ⟨absent, new, artifact, member, directory, holds, above, inside, led⟩
      · exact .inl old
      · exact .inr (.inl ⟨base, second.toKeepsDirectories.reach reached, planned⟩)
      · exact .inr (.inr ⟨absent, new, artifact, member, directory, holds, above, inside,
          second.toKeepsDirectories.reach led⟩)
    · exact .inr (.inl changed)
    · exact .inr (.inr ⟨first.toWithin.find?_eq_none absent, new, way⟩)

/-- What one step after the other touches is what both of them touch. -/
theorem append (first : Touches root made written before middle)
    (second : Touches root made' written' middle after) :
    Touches root (made ++ made') (written ++ written') before after :=
  (first.mono (List.subset_append_left _ _) (List.subset_append_left _ _)).trans
    (second.mono (List.subset_append_right _ _) (List.subset_append_right _ _))

/-- No file is made, changed or lost but those of the artifacts. -/
theorem sameFile (touches : Touches root made written before after)
    (elsewhere : ∀ base, after.reach root = .ok base →
      ∀ artifact ∈ written, location ≠ base ++ artifact.path.moves) :
    SameFile before after location := by
  intro content
  rcases touches.changes location with kept | ⟨base, reached, artifact, member, here⟩ |
    ⟨absent, new, _⟩
  · rw [kept]
  · exact absurd here (elsewhere base reached artifact member)
  · simp [absent, new]

end Touches

/-! ## Below a steady root -/

/-- A directory that is new on the way to an artifact is above the place of the artifact. -/
theorem isPrefix_of_new (steady : before.Steady root) (keeps : KeepsDirectories before after)
    (reached : after.reach root = .ok base) (ordinary : artifact.path.IsOrdinary)
    {directory above : Path} (holds : directoryOf root artifact = some directory)
    (way : above ∈ directory.ancestors) (led : after.reach above = .ok location)
    (absent : before.find? location = none) :
    location <+: base ++ artifact.path.moves.dropLast := by
  obtain ⟨moves, absolute, _⟩ := Path.of_parent?_eq_some holds
  obtain ⟨begins, same⟩ := Path.of_mem_ancestors way
  have begins : above.moves <+: root.moves ++ artifact.path.moves.dropLast := by
    rw [moves, Path.moves_join root ordinary.isAbsolute] at begins
    refine begins.trans ?_
    by_cases nowhere : artifact.path.moves = []
    · rw [nowhere, List.append_nil, List.dropLast_nil, List.append_nil]
      exact List.dropLast_prefix _
    · exact (List.dropLast_append_of_ne_nil nowhere).symm ▸ List.prefix_rfl
  have never : ".." ∉ artifact.path.moves.dropLast :=
    fun upwards => ordinary.not_up (List.dropLast_subset _ upwards)
  have from_root : above.isAbsolute = root.isAbsolute := by
    rw [same, absolute, Path.isAbsolute_join root ordinary.isAbsolute]
  exact steady.isPrefix_of_new keeps reached never from_root begins led absent

/-- Below a steady root a place is as it was if it is not that of a written artifact and no
directory is made there. -/
theorem Touches.find?_of_free {way : Location} (touches : Touches root made written before after)
    (steady : before.Steady root) (ordinary : ∀ artifact ∈ made, artifact.path.IsOrdinary)
    (reached : after.reach root = .ok base)
    (unwritten : ∀ artifact ∈ written, way ≠ artifact.path.moves)
    (unmade : ∀ artifact ∈ made, ¬ way <+: artifact.path.moves.dropLast) :
    after.find? (base ++ way) = before.find? (base ++ way) := by
  rcases touches.changes (base ++ way) with kept | ⟨base', reached', artifact, member, here⟩ |
    ⟨absent, _, artifact, member, directory, holds, above, inside, led⟩
  · exact kept
  · obtain rfl := Except.ok.inj (reached.symm.trans reached')
    exact absurd (List.append_cancel_left here) (unwritten artifact member)
  · have begins := isPrefix_of_new steady touches.toKeepsDirectories reached
      (ordinary artifact member) holds inside led absent
    exact absurd ((List.prefix_append_right_inj _).mp begins) (unmade artifact member)

/-! ## Every delivery -/

/-- Making directories on the way to artifacts touches no file. -/
theorem touches_of_grownAlong {paths : List Path} (grown : GrownAlong paths before after)
    (ways : ∀ above ∈ paths, ∃ artifact ∈ made, ∃ directory,
      directoryOf root artifact = some directory ∧ above ∈ directory.ancestors) :
    Touches root made [] before after := by
  refine ⟨grown.toGrown.within, fun location => (grown.found location).imp id ?_⟩
  rintro ⟨absent, new⟩
  obtain ⟨above, way, led⟩ := grown.along location absent new
  obtain ⟨artifact, member, directory, holds, inside⟩ := ways above way
  exact .inr ⟨absent, new, artifact, member, directory, holds, above, inside, led⟩

/-- The directories of artifacts touch no file when they are made, also if this fails. -/
theorem touches_makeAll (root : Path) (artifacts : List Artifact) (tree : Tree) :
    Touches root artifacts [] tree (makeAll tree (directories root (keepLast artifacts))).1 := by
  refine touches_of_grownAlong (makeAll_spec tree _).1 fun above way => ?_
  obtain ⟨directory, needed, inside⟩ := List.mem_flatMap.mp way
  obtain ⟨artifact, kept, holds⟩ := of_mem_directories needed
  exact ⟨artifact, (keepLast_sublist artifacts).subset kept, directory, holds, inside⟩

/-- Files are written over what was there, and only where the paths of artifacts lead. -/
structure Overwrites (root : Path) (artifacts : List Artifact) (ready after : Tree) : Prop extends
    Within ready after where
  untouched : ∀ location,
    (∀ artifact ∈ artifacts, ready.target? (root.join artifact.path) ≠ some location) →
      after.find? location = ready.find? location

theorem Overwrites.touches (ordinary : ∀ artifact ∈ artifacts, artifact.path.IsOrdinary)
    (overwrites : Overwrites root artifacts ready after) :
    Touches root [] artifacts ready after where
  toWithin := overwrites.toWithin
  changes location := by
    by_cases planned : ∃ artifact ∈ artifacts,
        ready.target? (root.join artifact.path) = some location
    · obtain ⟨artifact, member, leads⟩ := planned
      obtain ⟨base, reached, here⟩ := Tree.of_target?_join (ordinary artifact member) leads
      exact .inr (.inl ⟨base, overwrites.toKeepsDirectories.reach reached, artifact, member, here⟩)
    · exact .inl (overwrites.untouched location fun artifact member leads =>
        planned ⟨artifact, member, leads⟩)

/-- Writing files one after the other overwrites them up to the first that cannot be
written. -/
theorem overwrites_writeAll (root : Path) (artifacts : List Artifact) (tree : Tree) :
    Overwrites root artifacts tree (writeAll root tree artifacts).1 := by
  induction artifacts generalizing tree with
  | nil => exact ⟨.refl tree, fun _ _ => rfl⟩
  | cons artifact artifacts ih =>
      rcases done : tree.overwrite (root.join artifact.path) (.text artifact.content) with
        ⟨next, fault | ⟨⟩⟩
      · obtain rfl := Tree.eq_of_overwrite_eq_error done
        rw [Progress.writeAll_of_error done]
        exact ⟨.refl _, fun _ _ => rfl⟩
      · obtain ⟨place, leads, written⟩ := Tree.written_of_overwrite done
        rw [Progress.writeAll_of_ok done]
        refine ⟨written.within.trans (ih next).toWithin, fun location elsewhere => ?_⟩
        rw [(ih next).untouched location fun other member leads' => ?_, written.found, if_neg]
        · rintro rfl
          exact elsewhere artifact List.mem_cons_self leads
        · exact elsewhere other (List.mem_cons_of_mem _ member)
            (written.keepsDirectories_symm.target? leads')

/-- So do the tasks of a schedule, wherever it ends. -/
theorem overwrites_ended (ordinary : ∀ artifact ∈ artifacts, artifact.path.IsOrdinary)
    (ready : Tree) (root : Path) (schedule : List Artifact) :
    Overwrites root (keepLast artifacts) ready
      (ended schedule root (keepLast artifacts) ready).tree := by
  have fits := fits_ended ordinary ready root schedule
  refine ⟨⟨fits.keeps, fun location content found => ?_⟩, fun location elsewhere => ?_⟩
  · by_cases output : Progress.IsOutput ready root (keepLast artifacts)
        (ended schedule root (keepLast artifacts) ready) location
    · obtain ⟨artifact, member, existed, stage, leads⟩ := output
      have known := fits.stages artifact member
      rw [stage] at known
      obtain ⟨place, leads', _, there, _⟩ := known
      rw [leads] at leads'
      exact ⟨_, Option.some.inj leads' ▸ there⟩
    · exact ⟨content, by rw [fits.untouched location output, found]⟩
  · refine fits.untouched location ?_
    rintro ⟨artifact, member, _, _, leads⟩
    exact elsewhere artifact member leads

theorem touches_of_overwrites (ordinary : ∀ artifact ∈ artifacts, artifact.path.IsOrdinary)
    (touches : Touches root artifacts [] before ready)
    (overwrites : Overwrites root (keepLast artifacts) ready after) :
    Touches root artifacts artifacts before after := by
  have kept := (keepLast_sublist artifacts).subset
  have rest := overwrites.touches fun artifact member => ordinary artifact (kept member)
  exact (touches.mono (List.Subset.refl _) (List.nil_subset _)).trans
    (rest.mono (List.nil_subset _) kept)

/-- A delivery touches what belongs to its artifacts, however it ends. -/
theorem touches_deliver (ordinary : ∀ artifact ∈ artifacts, artifact.path.IsOrdinary)
    (root : Path) (tree : Tree) :
    Touches root artifacts artifacts tree (deliver root artifacts tree).1 := by
  have first := touches_makeAll root artifacts tree
  unfold deliver
  simp only
  rcases made : makeAll tree (directories root (keepLast artifacts)) with ⟨ready, failure | ⟨⟩⟩ <;>
    rw [made] at first
  · exact first.mono (List.Subset.refl _) (List.nil_subset _)
  · have second := touches_of_overwrites ordinary first
      (overwrites_writeAll root (keepLast artifacts) ready)
    rcases written : writeAll root ready (keepLast artifacts) with ⟨final, failure | ⟨⟩⟩ <;>
      simpa only [written] using second

/-- The same is true with files that are written side by side. -/
theorem touches_deliverBy (ordinary : ∀ artifact ∈ artifacts, artifact.path.IsOrdinary)
    (schedule : List Artifact) (root : Path) (tree : Tree) :
    Touches root artifacts artifacts tree (deliverBy schedule root artifacts tree).1 := by
  have first := touches_makeAll root artifacts tree
  unfold deliverBy
  simp only
  rcases made : makeAll tree (directories root (keepLast artifacts)) with ⟨ready, failure | ⟨⟩⟩ <;>
    rw [made] at first
  · exact first.mono (List.Subset.refl _) (List.nil_subset _)
  · exact touches_of_overwrites ordinary first (overwrites_ended ordinary ready root schedule)

/-! ## Deliveries that fail -/

/-- Where making directories fails, one of them cannot be made after some others. -/
theorem exists_of_makeAll_eq_error {paths : List Path} {failure : Failure}
    (failed : makeAll tree paths = (after, .error failure)) :
    ∃ path ∈ paths, ∃ middle fault, Grown tree middle ∧ Grown middle after ∧
      middle.makeDirectories path = (after, .error fault) ∧ failure = .write path fault := by
  induction paths generalizing tree with
  | nil => simp [makeAll] at failed
  | cons path paths ih =>
      have first := (Tree.makeDirectories_spec tree path).1.toGrown
      rw [makeAll] at failed
      rcases made : tree.makeDirectories path with ⟨next, fault | ⟨⟩⟩ <;>
        rw [made] at failed first
      · obtain ⟨rfl, same⟩ := Prod.mk.inj failed
        exact ⟨path, List.mem_cons_self, tree, fault, .refl tree, first, made,
          (Except.error.inj same).symm⟩
      · obtain ⟨other, inside, middle, fault, grown, rest⟩ := ih failed
        exact ⟨other, List.mem_cons_of_mem _ inside, middle, fault, first.trans grown, rest⟩

/-- The file of an artifact could not be written in a tree that has the directories of another
one. -/
def Refused (ready : Tree) (root : Path) (artifact : Artifact) (failure : Failure) : Prop :=
  ∃ later fault, KeepsDirectories ready later ∧
    later.overwrite (root.join artifact.path) (.text artifact.content) = (later, .error fault) ∧
    failure = .write (root.join artifact.path) fault

theorem refused_of_writeAll {kept : List Artifact} {failure : Failure}
    (failed : writeAll root ready kept = (after, .error failure)) :
    ∃ artifact ∈ kept, Refused ready root artifact failure := by
  induction kept generalizing ready with
  | nil =>
      have written : writeAll root ready [] = (ready, .ok ()) := rfl
      cases written.symm.trans failed
  | cons artifact kept ih =>
      rcases done : ready.overwrite (root.join artifact.path) (.text artifact.content) with
        ⟨next, fault | ⟨⟩⟩
      · obtain rfl := Tree.eq_of_overwrite_eq_error done
        rw [Progress.writeAll_of_error done] at failed
        exact ⟨artifact, List.mem_cons_self, next, fault, .refl next, done,
          (Except.error.inj (congrArg Prod.snd failed)).symm⟩
      · rw [Progress.writeAll_of_ok done] at failed
        obtain ⟨_, _, written⟩ := Tree.written_of_overwrite done
        obtain ⟨other, inside, later, fault, keeps, stuck⟩ := ih failed
        exact ⟨other, List.mem_cons_of_mem _ inside, later, fault,
          written.keepsDirectories.trans keeps, stuck⟩

/-- A delivery fails at a path where nothing can be written. -/
theorem exists_write_of_deliver {failure : Failure}
    (failed : (deliver root artifacts tree).2 = .error failure) :
    ∃ path fault, failure = .write path fault := by
  unfold deliver at failed
  simp only at failed
  rcases made : makeAll tree (directories root (keepLast artifacts)) with ⟨ready, other | ⟨⟩⟩ <;>
    rw [made] at failed
  · obtain rfl := Except.error.inj failed
    obtain ⟨path, _, _, fault, _, _, _, named⟩ := exists_of_makeAll_eq_error made
    exact ⟨path, fault, named⟩
  · rcases written : writeAll root ready (keepLast artifacts) with ⟨last, other | ⟨⟩⟩ <;>
      simp only [written] at failed
    · obtain rfl := Except.error.inj failed
      obtain ⟨artifact, _, _, fault, _, _, named⟩ := refused_of_writeAll written
      exact ⟨_, fault, named⟩
    · contradiction

/-! ## Deliveries within a bound -/

/-- Of paths with the same components one is listed. -/
theorem exists_mem_distinct {paths : List Path} {path : Path} (member : path ∈ paths) :
    ∃ listed ∈ distinct paths, path.components = listed.components := by
  induction paths generalizing path with
  | nil => cases member
  | cons first later ih =>
      by_cases again : later.any (Path.same first)
      · rw [distinct, if_pos again]
        rcases List.mem_cons.mp member with rfl | inside
        · obtain ⟨other, inside, same⟩ := List.any_eq_true.mp again
          obtain ⟨listed, found, also⟩ := ih inside
          exact ⟨listed, found, (Path.same_iff.mp same).trans also⟩
        · exact ih inside
      · rw [distinct, if_neg again]
        rcases List.mem_cons.mp member with rfl | inside
        · exact ⟨path, List.mem_cons_self, rfl⟩
        · obtain ⟨listed, found, same⟩ := ih inside
          exact ⟨listed, List.mem_cons_of_mem _ found, same⟩

/-- The directory of every artifact can be followed once all directories are made. -/
theorem reach_directoryOf (present : ∀ path ∈ directories root artifacts, ready.IsPresent path)
    (member : artifact ∈ artifacts) {directory : Path}
    (holds : directoryOf root artifact = some directory) :
    ∃ location, ready.reach directory = .ok location := by
  obtain ⟨listed, found, same⟩ :=
    exists_mem_distinct (List.mem_filterMap.mpr ⟨artifact, member, holds⟩)
  obtain ⟨location, led⟩ :=
    Tree.reach_of_isPresent (present listed (by rwa [directories, List.mem_mergeSort]))
  obtain ⟨moves, absolute⟩ := Path.of_components_eq same
  refine ⟨location, ?_⟩
  rwa [Tree.reach_eq_walk_moves, Tree.startOf, moves, absolute, ← Tree.startOf,
    ← Tree.reach_eq_walk_moves]

/-- Directories of a bound can all be made, in any order. -/
theorem makeAll_of_within {paths : List Path} (within : Within tree bound)
    (present : ∀ path ∈ paths, bound.IsPresent path)
    (trimmed : ∀ path ∈ paths, path.IsTrimmed) :
    ∃ ready, makeAll tree paths = (ready, .ok ()) ∧ Within ready bound := by
  induction paths generalizing tree with
  | nil => exact ⟨tree, rfl, within⟩
  | cons path paths ih =>
      obtain ⟨next, made, inside⟩ :=
        within.makeDirectories (present path List.mem_cons_self) (trimmed path List.mem_cons_self)
      rw [makeAll, made]
      exact ih inside (fun other member => present other (List.mem_cons_of_mem _ member))
        fun other member => trimmed other (List.mem_cons_of_mem _ member)

/-- A file of the bound can be written where its directory is there. -/
theorem isWritable_of_within (within : Within ready bound)
    (present : ∀ path ∈ directories root artifacts, ready.IsPresent path)
    (member : artifact ∈ artifacts) {place : Location} {content : Files.Content}
    (leads : bound.target? (root.join artifact.path) = some place)
    (found : bound.find? place = some (.file content)) : IsWritable ready root artifact := by
  have parent := Path.parent?_of_moves (Tree.moves_ne_nil_of_target? leads)
  obtain ⟨location, led⟩ := reach_directoryOf present member parent
  refine ⟨place, Tree.target?_of_parent? within.toKeepsDirectories leads parent led, fun here => ?_⟩
  rw [within.directories place here] at found
  simp at found

/-- What can be repeated can be repeated in every tree around. -/
theorem Repeatable.mono (repeatable : Repeatable root artifacts before)
    (within : Within before after) : Repeatable root artifacts after where
  present directory member := within.isPresent (repeatable.present directory member)
  files artifact kept := by
    obtain ⟨place, content, leads, found⟩ := repeatable.files artifact kept
    obtain ⟨other, still⟩ := within.files place content found
    exact ⟨place, other, within.target? leads, still⟩

/-- A delivery that could be repeated in the bound succeeds in every tree within it. -/
theorem Repeatable.deliver_within (repeatable : Repeatable root artifacts bound)
    (within : Within tree bound)
    (ordinary : ∀ artifact ∈ artifacts, artifact.path.IsOrdinary) :
    ∃ next outcomes, deliver root artifacts tree = (next, .ok outcomes) ∧ Within next bound := by
  obtain ⟨ready, made, inside⟩ := makeAll_of_within within repeatable.present
    fun path member => by
      obtain ⟨artifact, _, holds⟩ := of_mem_directories member
      exact Path.isTrimmed_of_parent? holds
  have present := (makeAll_spec tree (directories root (keepLast artifacts))).2
  rw [made] at present
  have writable (artifact : Artifact) (kept : artifact ∈ keepLast artifacts) :
      IsWritable ready root artifact := by
    obtain ⟨place, content, leads, found⟩ := repeatable.files artifact kept
    exact isWritable_of_within inside (present rfl) kept leads found
  obtain ⟨next, delivered⟩ :=
    deliverBy_of_isWritable ordinary (isComplete_inOrder artifacts) made writable
  obtain ⟨ready', made', all, _⟩ := of_deliverBy ordinary delivered
  obtain rfl : ready = ready' := congrArg Prod.fst (made.symm.trans made')
  refine ⟨next, _, deliver_eq_ok_iff.mpr delivered,
    all.adds_none.trans inside.toKeepsDirectories, fun location content found => ?_⟩
  by_cases planned : ∃ artifact ∈ keepLast artifacts,
      ready.target? (root.join artifact.path) = some location
  · obtain ⟨artifact, kept, leads⟩ := planned
    obtain ⟨place, other, leads', there⟩ := repeatable.files artifact kept
    have still := inside.target? leads
    rw [leads'] at still
    exact ⟨other, Option.some.inj still ▸ there⟩
  · rw [all.untouched location fun artifact kept leads => planned ⟨artifact, kept, leads⟩] at found
    exact inside.files location content found

end AgentKit.Delivery
