/-
# Keeping settings

Settings are kept as if their text were an artifact for the settings file: what a
delivery of it leaves, keeping the settings leaves. Files that are delivered elsewhere do
not change what is loaded, and settings that cannot be kept leave the file as it was.

That the text is read back as the settings is a matter of the reader, and not claimed here.
-/

import AgentKit.Proofs.Delivery.Repetition
import AgentKit.Settings.Storage

namespace AgentKit.Settings

open Files (Tree Location Entry)
open Files.Tree (KeepsDirectories)
open Delivery (Leaves Repeatable Touches)

variable {root : Path} {before after : Tree} {artifacts : List Artifact} {settings : Settings}

/-- The settings file as an artifact. -/
def artifact (settings : Settings) : Artifact := ⟨file, settings.toText⟩

theorem isOrdinary_file : file.IsOrdinary := by
  decide

theorem moves_file : file.moves = [toolkitDirectory, "config.yaml"] := by
  decide

theorem isOrdinary_toolkit : Path.IsOrdinary toolkitDirectory := by
  decide

theorem moves_toolkit : Path.moves toolkitDirectory = [toolkitDirectory] := by
  decide

/-- The settings file lies in the directory of the toolkit. -/
theorem join_toolkit : (root.join toolkitDirectory).join "config.yaml" = root.join file :=
  Path.join_join root (by decide) (by decide) (by decide) (by decide)

theorem path_artifact (settings : Settings) : settings.artifact.path = file := rfl

theorem isOrdinary_artifact : ∀ artifact ∈ [settings.artifact], artifact.path.IsOrdinary := by
  intro artifact member
  rw [List.mem_singleton.mp member]
  exact isOrdinary_file

/-- All settings are kept in one directory. -/
theorem directoryOf_artifact (root : Path) :
    ∃ directory, ∀ settings : Settings,
      Delivery.directoryOf root settings.artifact = some directory := by
  have moving : (root.join file).moves ≠ [] := by
    rw [Path.moves_join root isOrdinary_file.isAbsolute, moves_file]
    simp
  exact ⟨_, fun settings => Path.parent?_of_moves moving⟩

/-- Whether settings can be kept again does not depend on them. -/
theorem repeatable_artifact (repeatable : Repeatable root [settings.artifact] before)
    (other : Settings) : Repeatable root [other.artifact] before := by
  obtain ⟨directory, lies⟩ := directoryOf_artifact root
  have needs := (Delivery.repeatable_singleton_iff (lies settings)).mp repeatable
  rw [path_artifact] at needs
  rw [Delivery.repeatable_singleton_iff (lies other), path_artifact]
  exact needs

/-- Keeping settings succeeds where their delivery does, with the same tree. -/
theorem save_eq_ok_iff :
    settings.save root before = (after, .ok ()) ↔
      ∃ outcomes, deliver root [settings.artifact] before = (after, .ok outcomes) := by
  obtain ⟨directory, lies⟩ := directoryOf_artifact root
  have parent : (root.join file).parent? = some directory := lies settings
  rw [Delivery.deliver_singleton_eq_ok_iff (lies settings), artifact,
    ← Tree.writeAtomically_eq_ok_iff parent]
  unfold save
  rcases before.writeAtomically (root.join file) (.text settings.toText) with ⟨_, fault | ⟨⟩⟩ <;>
    simp

/-- Settings that were delivered are read as their text. -/
theorem readText_of_deliver {outcomes : List Delivered}
    (delivered : deliver root [settings.artifact] before = (after, .ok outcomes)) :
    after.readText (root.join file) = .ok settings.toText :=
  ((Delivery.completed_of_deliver isOrdinary_artifact delivered).holds settings.artifact
    ⟨[], [], rfl, by simp⟩).1

/-! ## What is loaded -/

/-- The settings that are loaded are those that the text of the file writes. -/
theorem load_eq_ok_some_iff :
    load before root = .ok (some settings) ↔
      ∃ text, before.readText (root.join file) = .ok text ∧ ofText text = .ok settings := by
  constructor
  · intro loaded
    simp only [load] at loaded
    split at loaded
    · cases read : before.readText (root.join file) with
      | error fault => simp [read] at loaded
      | ok text =>
          cases written : ofText text with
          | error error => simp [read, written] at loaded
          | ok found => exact ⟨text, rfl, by simpa [read, written] using loaded⟩
    · cases loaded
  · rintro ⟨text, read, written⟩
    obtain ⟨entry, found, _⟩ := Tree.bind_eq_ok_iff.mp read
    have there : before.isThere (root.join file) := Tree.isThere_iff.mpr ⟨entry, found⟩
    simp only [load, there, if_true, read, written]

/-- What is loaded lies at the place of the settings file, below the directory to which the root
leads. -/
theorem exists_file_of_load (loaded : load before root = .ok (some settings)) :
    ∃ base text, before.reach root = .ok base ∧
      before.find? (base ++ file.moves) = some (.file (.text text)) ∧
      ofText text = .ok settings := by
  obtain ⟨text, read, written⟩ := load_eq_ok_some_iff.mp loaded
  obtain ⟨entry, found, content⟩ := Tree.bind_eq_ok_iff.mp read
  rw [← join_toolkit, Tree.entryAt_join_eq_ok_iff (by decide)] at found
  obtain ⟨_, _, location, led, here⟩ := found
  obtain ⟨base, reached, _, rfl⟩ := (Tree.reach_join_eq_ok_iff isOrdinary_toolkit).mp led
  rw [List.append_assoc, moves_toolkit] at here
  rcases entry with _ | held | _ <;> cases content
  exact ⟨base, text, reached, by rw [moves_file]; exact here, written⟩

theorem load_congr
    (same : ∀ entry, after.entryAt (root.join file) = .ok entry ↔
      before.entryAt (root.join file) = .ok entry) : load after root = load before root := by
  cases found : before.entryAt (root.join file) with
  | ok entry =>
      have again := (same entry).mpr found
      simp only [load, Tree.isThere, Tree.readText, found, again]
  | error fault =>
      cases again : after.entryAt (root.join file) with
      | ok entry => simp [found] at same; exact absurd again (same entry)
      | error other => simp [load, Tree.isThere, found, again]

/-- Below a steady root the settings file is found as it was, if its place is as it was. -/
theorem entryAt_file_congr {entry : Entry} (steady : before.Steady root)
    (keeps : KeepsDirectories before after)
    (same : ∀ base, after.reach root = .ok base →
      after.find? (base ++ file.moves) = before.find? (base ++ file.moves)) :
    after.entryAt (root.join file) = .ok entry ↔ before.entryAt (root.join file) = .ok entry := by
  rw [← join_toolkit]
  refine Tree.entryAt_join_congr_of_keeps (by decide) keeps
    (fun _ => steady.reach_join keeps isOrdinary_toolkit) fun location led => ?_
  obtain ⟨base, reached, _, rfl⟩ := (Tree.reach_join_eq_ok_iff isOrdinary_toolkit).mp led
  have here := same base reached
  rwa [moves_file, List.append_cons] at here

/-- Deliveries that stay clear of the directory of the toolkit do not change what is
loaded. -/
theorem load_of_leaves (leaves : Leaves root artifacts before after) (steady : before.Steady root)
    (clear : ∀ artifact ∈ artifacts, toolkitDirectory ∉ artifact.path.moves) :
    load after root = load before root := by
  refine load_congr fun entry => entryAt_file_congr steady leaves.toKeepsDirectories
    fun base reached => leaves.find?_of_free reached fun artifact member begins => ?_
  exact clear artifact member (begins.subset (by simp [moves_file]))

/-! ## Keeping that fails -/

/-- Settings that cannot be kept leave the settings file alone. Its directory may be new. -/
theorem of_save_eq_error {failure : Failure}
    (failed : settings.save root before = (after, .error failure)) :
    Touches root [settings.artifact] [] before after ∧ ∃ fault, failure = .files fault := by
  obtain ⟨directory, lies⟩ := directoryOf_artifact root
  have parent : (root.join file).parent? = some directory := lies settings
  have grown := (Tree.makeDirectories_spec before directory).1
  rcases made : before.makeDirectories directory with ⟨ready, result⟩
  rw [made] at grown
  have touches : Touches root [settings.artifact] [] before ready :=
    Delivery.touches_of_grownAlong grown fun above way =>
      ⟨settings.artifact, List.mem_singleton_self _, directory, lies settings, way⟩
  simp only [save, Tree.writeAtomically, parent, made] at failed
  cases result with
  | error fault =>
      obtain ⟨rfl, rfl⟩ : ready = after ∧ .files fault = failure := by simpa using failed
      exact ⟨touches, fault, rfl⟩
  | ok _ =>
      rcases moved : ready.replace (root.join file) (.text settings.toText) with
        ⟨last, fault | ⟨⟩⟩ <;> simp only [moved] at failed
      · obtain ⟨rfl, rfl⟩ : last = after ∧ .files fault = failure := by simpa using failed
        exact ⟨Tree.eq_of_replace_eq_error moved ▸ touches, fault, rfl⟩
      · simp at failed

end AgentKit.Settings
