/-
# What a job records

A job that succeeds leaves settings that say what it was for: its targets and its language by
their keys, and its profile, which is a known one. So there is nothing to warn of in them,
whatever the settings were before.

The version is the one that the settings had before. They are loaded twice, before anything is
written and again when the targets are installed. Below a steady root both find the same. But
below a root that leads upwards through a missing directory nothing is found at first, and
whether anything is found later depends on whether the targets have made that directory.
-/

import AgentKit.Proofs.Command.Failing
import AgentKit.Proofs.Command.Listing

namespace AgentKit

open Files (Tree)

variable {job : Job} {root : Path} {time : Timestamp} {before after : Tree}
  {installed : Installed} {settings : Option Settings} {saved : Settings}

/-- The settings that a job finds to record itself in. -/
structure Settings.Underlie (root : Path) (before after : Tree) (settings : Option Settings) :
    Prop where
  /-- Below a steady root they are those that were there before. -/
  steady : before.Steady root → Settings.load before root = .ok settings
  /-- Below any root they were there before, in the place to which the root leads now. -/
  found : ∀ old, settings = some old → ∃ base text, after.reach root = .ok base ∧
    before.find? (base ++ Settings.file.moves) = some (.file (.text text)) ∧
    Settings.ofText text = .ok old

/-- Settings that say what a job was for. -/
structure Job.IsRecordedBy (job : Job) (root : Path) (before after : Tree) (saved : Settings) :
    Prop where
  /-- They are in the settings file. -/
  held : after.readText (root.join Settings.file) = .ok saved.toText
  /-- If they are read back as they were written, they are loaded. -/
  loaded : saved.ReadsBack → Settings.load after root = .ok (some saved)
  clean : saved.warnings = []
  targets : saved.targets = job.targets
  resolvedLocale : saved.resolvedLocale = job.locale
  locale : saved.locale = job.locale.key
  profile : ∀ key, saved.profile = some key → ∃ profile, StackProfile.find? key = some profile
  /-- The version is that of the settings in which the job was recorded, if there were any. -/
  version : ∃ settings, Settings.Underlie root before after settings ∧
    saved.version = (settings.map (·.version)).getD Settings.defaultVersion

theorem exists_profile_of_sharedRules {rules profile shared : Option String}
    (known : sharedRules rules profile = .ok shared) :
    ∀ key, profile = some key → ∃ profile, StackProfile.find? key = some profile := by
  rintro key rfl
  cases found : StackProfile.find? key with
  | none => simp [sharedRules, found] at known
  | some profile => exact ⟨profile, rfl⟩

/-- A job that succeeds has kept its stamp on the settings that it found. -/
theorem Job.stamp_of_run (done : (job.run root time before).result = .ok installed) :
    ∃ settings, Settings.Underlie root before (job.run root time before).tree settings ∧
      (job.run root time before).tree.readText (root.join Settings.file) =
        .ok (job.stamp (settings.getD .default) time).toText := by
  obtain ⟨_, _, middle, _, settings, _, _, loaded, first, found, kept, _⟩ := steps_of_run done
  have spares := sparesSettings_installAll (fun _ => LoadRequest.slash_notMem_stem loaded)
    job.targets job.locale root before
  rw [first] at spares
  have touches := Delivery.touches_deliver
    (@Settings.isOrdinary_artifact (job.stamp (settings.getD .default) time)) root middle
  rw [kept] at touches
  refine ⟨settings, ⟨fun steady => ?_, ?_⟩, Settings.readText_of_deliver kept⟩
  · rw [← spares.load_eq steady, found]
  · rintro old rfl
    obtain ⟨base, text, reached, here, written⟩ := Settings.exists_file_of_load found
    exact ⟨base, text, touches.toKeepsDirectories.reach reached,
      (spares.sameFile reached _).mp here, written⟩

/-- A job that succeeds has installed its targets in its language, and is recorded. -/
theorem Job.isRecorded_of_run (done : (job.run root time before).result = .ok installed) :
    installed.targets.map (·.1) = job.targets ∧ installed.locale = job.locale ∧
      ∃ saved, job.IsRecordedBy root before (job.run root time before).tree saved := by
  obtain ⟨_, _, _, _, _, _, rules, agents, first, _, _, rfl⟩ := steps_of_run done
  obtain ⟨settings, underlie, held⟩ := stamp_of_run done
  have known := exists_profile_of_sharedRules rules
  refine ⟨map_fst_of_installAll (fun _ => LoadRequest.slash_notMem_stem agents) first, rfl,
    job.stamp (settings.getD .default) time, ?_⟩
  constructor
  case held => exact held
  case loaded => exact fun reads => Settings.load_eq_ok_some_iff.mpr ⟨_, held, reads⟩
  case clean => exact (Settings.warnings_stamp_eq_nil_iff _ _ _ _ _ _ _).mpr known
  case targets => exact targets_stamp job _ time
  case resolvedLocale => exact resolvedLocale_stamp job _ time
  case locale => rfl
  case profile => exact known
  case version =>
    refine ⟨settings, underlie, ?_⟩
    cases settings <;> rfl

/-! ## Renewals -/

/-- The settings after a renewal: tools and language are recorded by their keys, and the rest of
what the user has chosen is as it was. -/
def Settings.renewed (settings : Settings) (time : Timestamp) : Settings :=
  { settings with
    tools := settings.targets.map Target.key
    locale := settings.resolvedLocale.key
    toolkitVersion := some AgentKit.toolkitVersion
    lastInstall := some time }

/-- A renewal for the targets that settings name, without another language, stamps the settings
with what they say. -/
theorem Renewal.stamp_job (old : Settings) (definitions : Option Path) (time : Timestamp) :
    (Renewal.job ⟨none, definitions⟩ (some old) old.targets).stamp old time =
      old.renewed time := by
  rw [Job.stamp, Renewal.locale_job]
  rfl

namespace Settings

/-- Tools that are warned about are recorded, and after a renewal they are not. -/
theorem notMem_tools_renewed {old : Settings} {tool : String}
    (unknown : .unknownTool tool ∈ old.warnings) :
    tool ∈ old.tools ∧ tool ∉ (old.renewed time).tools := by
  obtain ⟨member, names_none⟩ : tool ∈ old.tools ∧ Target.ofText? tool = none := by
    simpa [mem_warnings_iff] using unknown
  refine ⟨member, fun inside => ?_⟩
  obtain ⟨target, _, rfl⟩ := List.mem_map.mp inside
  rw [Target.ofText?_key] at names_none
  contradiction

end Settings

end AgentKit
