/-
# A listing and the renewal it announces

A listing shows the agents that a renewal would install: both load the same settings, compose the
same rules in the same language and load the same roster, so they fail to load for the same
reason or not at all. What the renewal writes then are the files that its targets have for the
listed agents, and the settings. A later listing that chooses no language finds the language
in the settings and shows the same.

The targets of the renewal are not shown. A renewal without targets installs nothing, and it does
not even look at the definitions, so it can succeed where the listing fails.
-/

import AgentKit.Proofs.Command.Failing
import AgentKit.Proofs.Command.Renewal
import AgentKit.Proofs.Plan.Marker

namespace AgentKit

open Files (Tree)
open Delivery (Leaves Touches keepLast)

variable {options : LoadOptions} {root : Path} {before middle after tree : Tree}
  {time : Timestamp} {settings : Option Settings} {shared : Option String} {roster : Roster}
  {listing : Listing} {trouble : Trouble} {job : Job}

/-! ## What a listing loads -/

/-- Below a root with targets to renew there is something, so the root can be followed. -/
theorem Renewal.steady_of_targets (loaded : Settings.load tree root = .ok settings)
    (some_target : targets settings root tree ≠ []) : tree.Steady root := by
  left
  cases settings with
  | none =>
      -- Without settings there is the marker of a target.
      obtain ⟨target, member⟩ := List.exists_mem_of_ne_nil _ some_target
      obtain ⟨entry, found⟩ := Tree.isThere_iff.mp (Target.mem_detect_iff.mp member)
      obtain ⟨_, _, location, led, _⟩ :=
        (Tree.entryAt_join_eq_ok_iff target.isName_marker.1).mp found
      exact ⟨location, led⟩
  | some settings =>
      obtain ⟨base, _, reached, _⟩ := Settings.exists_file_of_load loaded
      exact ⟨base, reached⟩

/-! ## What a renewal writes -/

namespace Job

/-- A job that was carried out leaves the files of its plans and the settings. -/
theorem Basis.leaves (basis : job.Basis root shared roster before) {installed : Installed}
    (loaded : Settings.load before root = .ok settings)
    (done : job.carryOut root time shared before = (after, .ok installed)) :
    Leaves root (planOf job.targets job.locale roster.agents ++
      [(job.stamp (settings.getD .default) time).artifact]) before after := by
  obtain ⟨middle, results, outcomes, first, recorded, rfl⟩ := basis.of_carryOut loaded done
  have installed := (of_installAll basis.plain basis.steady first).1
  have kept := Delivery.leaves_of_deliver (basis.steady.mono installed.toKeepsDirectories)
    Settings.isOrdinary_artifact recorded
  refine installed.trans (List.forall_mem_append.mpr ⟨?_, ?_⟩) kept
  · exact isOrdinary_planOf _ _ basis.plain
  · exact Settings.isOrdinary_artifact

end Job

end AgentKit
