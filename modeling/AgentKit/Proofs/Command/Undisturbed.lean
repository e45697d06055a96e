/-
# What installations do not disturb

An installation writes artifacts with neutral paths and the settings file, and makes
directories on the way. Definitions and overrides are therefore loaded afterwards as they
were before, and the root of the project is found where it was.

The directory of definitions must not be the one in which the settings are kept: there
the settings file would be taken for a definition. It may be any other directory, also
one into which artifacts are written.
-/

import AgentKit.ProjectRoot
import AgentKit.Proofs.Files.Ancestors
import AgentKit.Proofs.Plan.Neutral
import AgentKit.Proofs.Roster.Layers
import AgentKit.Proofs.Settings.Storage

namespace AgentKit

open Files (Tree Location)
open Delivery (Leaves)

/-- An artifact as an installation writes it: one with a neutral path, or the settings. -/
def IsOutput (artifact : Artifact) : Prop :=
  artifact.path = Settings.file ∨
    artifact.path.IsOrdinary ∧ artifact.path.moves ≠ [] ∧
      ∀ move ∈ artifact.path.moves, IsNeutral move

/-- A path does not lead to the directory of the toolkit below a root. -/
def IsOutside (tree : Tree) (root path : Path) : Prop :=
  ∀ base, tree.reach root = .ok base → tree.reach path ≠ .ok (base ++ [toolkitDirectory])

variable {root path : Path} {before after : Tree} {artifacts : List Artifact}
  {location base way : Location} {file : String}

theorem isOrdinary_of_isOutput {artifact : Artifact} (output : IsOutput artifact) :
    artifact.path.IsOrdinary := by
  rcases output with settings | ⟨ordinary, _⟩
  · rw [settings]
    exact Settings.isOrdinary_file
  · exact ordinary

/-- No output lies in the directory of the toolkit but the settings. -/
theorem free_of_toolkit (outputs : ∀ artifact ∈ artifacts, IsOutput artifact)
    (inside : toolkitDirectory ∈ way) (other : ¬ way <+: Settings.file.moves) :
    ∀ artifact ∈ artifacts, ¬ way <+: artifact.path.moves := by
  intro artifact member begins
  rcases outputs artifact member with settings | ⟨_, _, neutral⟩
  · exact other (settings ▸ begins)
  · exact (neutral _ (begins.subset inside)).1 rfl

/-! ## Definitions -/

namespace LoadRequest

variable {request : LoadRequest}

/-- The definition files of a directory are the same files with the same content. -/
theorem find?_definition (leaves : Leaves root artifacts before after)
    (outputs : ∀ artifact ∈ artifacts, IsOutput artifact) (steady : before.Steady root)
    (outside : IsOutside before root path) (led : before.reach path = .ok location)
    (named : Definition.stem? file ≠ none) (content : Files.Content) :
    after.find? (location ++ [file]) = some (.file content) ↔
      before.find? (location ++ [file]) = some (.file content) := by
  rcases leaves.changes (location ++ [file]) with
    kept | ⟨base, reached, artifact, member, here | ⟨absent, new, _⟩⟩
  · rw [kept]
  · exfalso
    rcases outputs artifact member with settings | ⟨_, moving, neutral⟩
    · rw [settings, Settings.moves_file] at here
      have above : location = base ++ [toolkitDirectory] := by
        have same := congrArg List.dropLast here
        simpa [List.dropLast_append_of_ne_nil] using same
      have there := Tree.find?_reach led
      rw [above] at there led
      exact outside base (steady.reach leaves.toKeepsDirectories reached (Tree.find?_above there)) led
    · have last := congrArg List.getLast? here
      rw [List.getLast?_concat, List.getLast?_append_of_ne_nil _ moving] at last
      exact named (neutral file (List.mem_of_getLast? last.symm)).2
  · simp [absent, new]

/-- No definition is touched, nor is a directory of definitions lost. -/
theorem keepsDefaults_of_leaves (leaves : Leaves root artifacts before after)
    (outputs : ∀ artifact ∈ artifacts, IsOutput artifact) (steady : before.Steady root)
    (outside : ∀ path, request.defaults = .directory path → IsOutside before root path) :
    request.KeepsDefaults before after where
  toKeepsDirectories := leaves.toKeepsDirectories
  definitions path _ _ source led named content :=
    find?_definition leaves outputs steady (outside path source) led named content

theorem free_overrides (outputs : ∀ artifact ∈ artifacts, IsOutput artifact) (more : List String) :
    ∀ artifact ∈ artifacts,
      ¬ Path.moves overridesDirectory ++ more <+: artifact.path.moves := by
  refine free_of_toolkit outputs (by rw [moves_overrides]; simp) fun begins => ?_
  have short := (List.prefix_append _ more).trans begins
  rw [moves_overrides, Settings.moves_file] at short
  exact absurd short (by decide)

/-- An override is what it was. -/
theorem overrideAt_of_leaves (leaves : Leaves root artifacts before after)
    (outputs : ∀ artifact ∈ artifacts, IsOutput artifact) (steady : before.Steady root)
    (overrides : request.overrides = some (root.join overridesDirectory))
    (named : Files.isName file) :
    request.overrideAt after file = request.overrideAt before file := by
  refine overrideAt_of_keeps leaves.toKeepsDirectories named overrides
    (join_overrides_ne_empty root) (fun location led there => ?_) fun location led => ?_
  · exact steady.reach_join leaves.toKeepsDirectories isOrdinary_overrides led there
  · obtain ⟨base, reached, _, rfl⟩ := (Tree.reach_join_eq_ok_iff isOrdinary_overrides).mp led
    rw [List.append_assoc]
    exact leaves.find?_of_free reached (free_overrides outputs [file])

/-- The agents that an installation has loaded are loaded again afterwards. -/
theorem load_of_leaves (leaves : Leaves root artifacts before after)
    (outputs : ∀ artifact ∈ artifacts, IsOutput artifact) (steady : before.Steady root)
    (overrides : request.overrides = some (root.join overridesDirectory))
    (outside : ∀ path, request.defaults = .directory path → IsOutside before root path)
    {roster : Roster} (loaded : request.load before = .ok roster) :
    request.load after = .ok roster := by
  have keeps := keepsDefaults_of_leaves leaves outputs steady outside
  obtain ⟨names, considered, rfl, again⟩ := keeps.load_eq loaded
  rw [again]
  refine congrArg _ (Roster.ofFiles_congr fun file member => ?_)
  have known := (considered file).mp member
  refine agentOf_congr rfl rfl ?_ fun _ => keeps.defaultText_eq known
  exact overrideAt_of_leaves leaves outputs steady overrides (isName_of_considers known)

end LoadRequest

/-! ## The root of the project -/

namespace ProjectRoot

/-- The root above a directory is one of the directories above it, and no nearer one
holds a directory of the toolkit. -/
theorem above_spec (tree : Tree) (start : Path) :
    ∃ nearer farther, start.ancestors = nearer ++ above tree start :: farther ∧
      ∀ directory ∈ nearer, tree.isDirectory (directory.join toolkitDirectory) = false := by
  cases held : holding tree toolkitDirectory start.ancestors with
  | some root =>
      obtain ⟨_, nearer, farther, whole, none⟩ := List.find?_eq_some_iff_append.mp held
      refine ⟨nearer, farther, ?_, fun directory member => by simpa using none directory member⟩
      rw [whole, above, held]
      rfl
  | none =>
      have nowhere (directory : Path) (member : directory ∈ start.ancestors) :
          tree.isDirectory (directory.join toolkitDirectory) = false := by
        simpa using List.find?_eq_none.mp held directory member
      have member : above tree start ∈ start.ancestors := by
        rw [above, held, Option.none_or]
        cases repository : holding tree repositoryDirectory start.ancestors with
        | some root => exact List.mem_of_find?_eq_some repository
        | none => exact List.mem_of_mem_head? (Tree.head?_ancestors start)
      obtain ⟨nearer, farther, whole⟩ := List.append_of_mem member
      exact ⟨nearer, farther, whole, fun directory inside =>
        nowhere directory (whole ▸ List.mem_append_left _ inside)⟩

/-- The directories above the working directory begin at the top and never lead
upwards. -/
theorem of_mem_ancestors {tree : Tree} {directory : Path}
    (member : directory ∈ tree.workingPath.ancestors) :
    directory.isAbsolute ∧ ".." ∉ directory.moves := by
  obtain ⟨absolute, moves⟩ := tree.workingPath_spec
  obtain ⟨begins, same⟩ := Path.of_mem_ancestors member
  refine ⟨same.trans absolute, fun upwards => ?_⟩
  have named := Tree.isName_of_find? tree.find?_current ".." (moves ▸ begins.subset upwards)
  exact absurd named (by decide)

/-- A root that was looked for is steady. -/
theorem steady_resolve {given : Option Path}
    (steady : ∀ path, given = some path → before.Steady path) :
    before.Steady (resolve before given) := by
  cases given with
  | some path => exact steady path rfl
  | none =>
      obtain ⟨nearer, farther, whole, _⟩ := above_spec before before.workingPath
      have member : resolve before none ∈ before.workingPath.ancestors := by
        rw [whole, resolve]
        simp
      exact .inr (of_mem_ancestors member).2

/-- A directory above the working directory leads to the place of its moves. -/
theorem location_of_mem_ancestors {tree other : Tree} {directory : Path}
    (member : directory ∈ other.workingPath.ancestors)
    (led : tree.reach directory = .ok location) : location = directory.moves := by
  obtain ⟨absolute, never⟩ := of_mem_ancestors member
  rw [Tree.location_of_not_up never led, Tree.startOf, if_pos absolute, List.nil_append]

/-- Between the working directory and the root no directory comes to hold a directory of
the toolkit. -/
theorem isDirectory_toolkit_of_leaves (leaves : Leaves root artifacts before after)
    (outputs : ∀ artifact ∈ artifacts, IsOutput artifact)
    (reached : after.reach root = .ok base) (above : root ∈ before.workingPath.ancestors)
    {directory : Path} (member : directory ∈ before.workingPath.ancestors)
    (proper : way ≠ []) (nearer : directory.moves = root.moves ++ way)
    (there : after.isDirectory (directory.join toolkitDirectory)) :
    before.isDirectory (directory.join toolkitDirectory) := by
  obtain ⟨flaw, location, led⟩ := Tree.isDirectory_iff.mp there
  have free : ∀ artifact ∈ artifacts, ¬ way ++ [toolkitDirectory] <+: artifact.path.moves := by
    refine free_of_toolkit outputs (by simp) fun begins => ?_
    rw [Settings.moves_file] at begins
    cases way with
    | nil => exact proper rfl
    | cons first others =>
        rw [List.cons_append, List.cons_prefix_cons] at begins
        cases others with
        | nil => exact absurd begins.2 (by decide)
        | cons second others => simp at begins
  have found := Tree.find?_reach led
  obtain ⟨place, passed, _, rfl⟩ := (Tree.reach_join_eq_ok_iff Settings.isOrdinary_toolkit).mp led
  have here : place ++ Path.moves toolkitDirectory = base ++ (way ++ [toolkitDirectory]) := by
    rw [location_of_mem_ancestors member passed, nearer, Settings.moves_toolkit, List.append_assoc,
      location_of_mem_ancestors above reached]
  rw [here, leaves.find?_of_free reached free, ← here] at found
  refine Tree.isDirectory_iff.mpr ⟨flaw, _, Tree.reach_of_find? leaves.current ?_ led found⟩
  rw [Path.moves_join directory Settings.isOrdinary_toolkit.isAbsolute, Settings.moves_toolkit, List.mem_append,
    not_or]
  exact ⟨(of_mem_ancestors member).2, by decide⟩

/-- After an installation the root is found where it was. -/
theorem resolve_of_leaves {given : Option Path}
    (leaves : Leaves (resolve before given) artifacts before after)
    (outputs : ∀ artifact ∈ artifacts, IsOutput artifact)
    (there : after.isDirectory ((resolve before given).join toolkitDirectory)) :
    resolve after given = resolve before given := by
  cases given with
  | some path => rfl
  | none =>
      have same : after.workingPath = before.workingPath := by
        rw [Tree.workingPath, Tree.workingPath, leaves.current]
      obtain ⟨nearer, farther, whole, none⟩ := above_spec before before.workingPath
      simp only [resolve] at leaves there ⊢
      generalize above before before.workingPath = root at *
      obtain ⟨_, _, led⟩ := Tree.isDirectory_iff.mp there
      obtain ⟨base, reached, _⟩ := (Tree.reach_join_eq_ok_iff Settings.isOrdinary_toolkit).mp led
      have still (directory : Path) (near : directory ∈ nearer) :
          ¬ after.isDirectory (directory.join toolkitDirectory) := by
        intro found
        have ordered := Path.pairwise_ancestors before.workingPath_spec.1
        rw [whole, List.pairwise_append] at ordered
        obtain ⟨way, proper, longer⟩ := ordered.2.2 directory near root List.mem_cons_self
        have held := isDirectory_toolkit_of_leaves leaves outputs reached (by simp [whole])
          (by simp [whole, near]) proper longer found
        rw [none directory near] at held
        contradiction
      have held : holding after toolkitDirectory before.workingPath.ancestors = some root :=
        List.find?_eq_some_iff_append.mpr
          ⟨there, nearer, farther, whole, fun directory near => by simpa using still directory near⟩
      rw [same, above, held]
      rfl

end ProjectRoot

end AgentKit
