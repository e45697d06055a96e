/-
# Detected targets

After targets were installed, they are detected together with those that were detected
before, and no others. So a renewal that finds no settings installs all of them again.

A root that leads upwards through a directory that is missing may come to lead elsewhere
when that directory is made. What was installed is detected there too, but so is what lay
there already.
-/

import AgentKit.Command.Renewal
import AgentKit.Proofs.Command.Job
import AgentKit.Proofs.Plan.Marker

namespace AgentKit

open Files (Tree)
open Target (detect isDetected)

variable {agents : List Agent} {locale : Locale} {root : Path} {before after : Tree}
  {target : Target} {targets : List Target} {results : List (Target × List Delivered)}

/-- Installed targets are detected, and so is what was detected before. -/
theorem isDetected_of_installAll (plain : ∀ agent ∈ agents, '/' ∉ agent.stem.toList)
    (some_agent : agents ≠ [])
    (installed : installAll agents locale root before targets = (after, .ok results))
    (known : isDetected before root target ∨ target ∈ targets) : isDetected after root target := by
  rcases known with detected | member
  · have touches := touches_installAll plain targets locale root before
    rw [installed] at touches
    exact touches.toWithin.isThere_join target.isName_marker.1 detected
  · exact Target.isDetected_of_repeatable plain some_agent
      (repeatable_of_installAll plain installed target member)

/-- No artifact of other targets lies behind the marker of a target. -/
theorem not_marker_isPrefix_planOf (plain : ∀ agent ∈ agents, '/' ∉ agent.stem.toList)
    (other : target ∉ targets) (locale : Locale) :
    ∀ artifact ∈ planOf targets locale agents, ¬ [target.marker] <+: artifact.path.moves := by
  intro artifact member begins
  obtain ⟨owner, inside, planned⟩ := List.mem_flatMap.mp member
  obtain rfl := (Target.contains_plan plain planned).owned.eq_of_marker begins
  exact other inside

/-- Below a steady root nothing else comes to be detected. -/
theorem isDetected_iff_of_installAll (plain : ∀ agent ∈ agents, '/' ∉ agent.stem.toList)
    (some_agent : agents ≠ []) (steady : before.Steady root)
    (installed : installAll agents locale root before targets = (after, .ok results)) :
    isDetected after root target ↔ isDetected before root target ∨ target ∈ targets := by
  refine ⟨fun detected => ?_, isDetected_of_installAll plain some_agent installed⟩
  by_cases member : target ∈ targets
  · exact .inr member
  · left
    have leaves := (of_installAll plain steady installed).1
    obtain ⟨entry, found⟩ := Tree.isThere_iff.mp detected
    have free := not_marker_isPrefix_planOf plain member locale
    exact Tree.isThere_iff.mpr ⟨entry,
      (leaves.entryAt_join_eq_ok_iff steady target.isName_marker.1 free).mp found⟩

/-! ## Renewal without settings -/

namespace Renewal

variable {options : LoadOptions} {time : Timestamp} {tree : Tree} {renewal : Renewal}

/-- Without settings a renewal is for the targets that are detected. -/
theorem run_of_detected (missing : Settings.load tree root = .ok none)
    (some_target : detect tree root ≠ []) :
    run options root time tree =
      runJob (job options none (detect tree root)) root time tree := by
  obtain ⟨target, others, found⟩ := List.exists_cons_of_ne_nil some_target
  have listed : targets none root tree = target :: others := found
  simp only [run, loadSettings_eq_ok_iff.mpr missing, listed, found]

/-- The run of a job that succeeds has installed the targets of the job. -/
theorem targets_of_runJob {job : Job}
    (done : (runJob job root time tree).result = .ok renewal) :
    ∃ installed, renewal = .renewed installed ∧ installed.targets.map (·.1) = job.targets := by
  rw [runJob] at done
  rcases result : (job.run root time tree).result with trouble | installed
  · simp [result, Except.map] at done
  · obtain ⟨shared, _, carried⟩ := Job.of_run result
    obtain ⟨roster, middle, results, loaded, first, _, rfl⟩ := Job.carryOut_eq_ok_iff.mp carried
    refine ⟨_, by simpa [result, Except.map] using done.symm, ?_⟩
    exact map_fst_of_installAll (fun _ => LoadRequest.slash_notMem_stem loaded) first

end Renewal

/-- Of some agents that were loaded, targets that were installed are detected afterwards
together with what was detected before; below a steady root, nothing else is. A renewal
that finds no settings is for the detected targets, and if it succeeds it has installed
all of them. -/
theorem detect_of_installAll {request : LoadRequest} {source : Tree} {roster : Roster}
    (loaded : request.load source = .ok roster) (some_agent : roster.agents ≠ [])
    (installed : installAll roster.agents locale root before targets = (after, .ok results)) :
    (∀ target, isDetected before root target ∨ target ∈ targets → target ∈ detect after root) ∧
      (before.Steady root → detect after root =
        Target.all.filter fun target => isDetected before root target ∨ target ∈ targets) ∧
      (targets ≠ [] → Settings.load after root = .ok none → ∀ options time,
        Renewal.run options root time after =
            Renewal.runJob (Renewal.job options none (detect after root)) root time after ∧
          ∀ renewal, (Renewal.run options root time after).result = .ok renewal →
            ∃ installed, renewal = .renewed installed ∧
              installed.targets.map (·.1) = detect after root) := by
  have plain : ∀ agent ∈ roster.agents, '/' ∉ agent.stem.toList :=
    fun agent => LoadRequest.slash_notMem_stem loaded
  have kept (target : Target) (known : isDetected before root target ∨ target ∈ targets) :
      target ∈ detect after root :=
    Target.mem_detect_iff.mpr (isDetected_of_installAll plain some_agent installed known)
  refine ⟨kept, fun steady => ?_, fun some_target missing options time => ?_⟩
  · rw [detect]
    refine List.filter_congr fun target _ => ?_
    rw [Bool.eq_iff_iff, isDetected_iff_of_installAll plain some_agent steady installed,
      decide_eq_true_iff]
  · obtain ⟨target, others, rfl⟩ := List.exists_cons_of_ne_nil some_target
    have found : detect after root ≠ [] :=
      List.ne_nil_of_mem (kept target (.inr List.mem_cons_self))
    have run : Renewal.run options root time after = _ := Renewal.run_of_detected missing found
    refine ⟨run, fun renewal done => ?_⟩
    rw [run] at done
    exact Renewal.targets_of_runJob done

/-- A project in which one target was installed before. -/
def markedTree : Tree where
  entries := [([".gemini"], .directory)]
  workingDirectory := []

/-- The twins are installed for a second target, and both targets are renewed. -/
theorem detect_twins :
    ∃ after results, installAll Target.twins .english "." markedTree [.web] = (after, .ok results) ∧
      detect after "." = [.gemini, .web] ∧
      ∀ time, Renewal.run ⟨none, none⟩ "." time after =
        Renewal.runJob (Renewal.job ⟨none, none⟩ none [.gemini, .web]) "." time after := by
  obtain ⟨roster, loaded, agents⟩ := Target.load_twinTree
  have done : (installAll Target.twins .english "." markedTree [.web]).2 =
      .ok [(.web, [⟨"prompts/a-b.txt", false⟩, ⟨"prompts/a_b.txt", false⟩])] := by
    decide +kernel
  have missing : Settings.load (installAll Target.twins .english "." markedTree [.web]).1 "." =
      .ok none := by
    have absent : (installAll Target.twins .english "." markedTree [.web]).1.isThere
        (Path.join "." Settings.file) = false := by
      decide +kernel
    simp [Settings.load, absent]
  rw [← agents] at done missing ⊢
  obtain ⟨_, detected, renews⟩ :=
    detect_of_installAll loaded (by rw [agents]; decide) (Prod.ext rfl done)
  have found := (detected (.inr (by decide))).trans
    (show _ = [.gemini, .web] by decide +kernel)
  refine ⟨_, _, Prod.ext rfl done, found, fun time => ?_⟩
  rw [(renews (by decide) missing ⟨none, none⟩ time).1, found]

/-- Below a root that leads through the missing marker of another target and back, that
target appears with the first installation. -/
theorem detect_above_missing :
    ∃ roster, Target.twinRequest.load Target.twinTree = .ok roster ∧ roster.agents ≠ [] ∧
      ∃ after results,
        installAll roster.agents .english ".gemini/.." Target.twinTree [.web] =
          (after, .ok results) ∧
        detect Target.twinTree ".gemini/.." = [] ∧
        detect after ".gemini/.." = [.gemini, .web] ∧
        (Target.all.filter fun target =>
          isDetected Target.twinTree ".gemini/.." target ∨ target ∈ [Target.web]) = [.web] := by
  obtain ⟨roster, loaded, agents⟩ := Target.load_twinTree
  refine ⟨roster, loaded, by rw [agents]; decide, ?_⟩
  have done : (installAll Target.twins .english ".gemini/.." Target.twinTree [.web]).2 =
      .ok [(.web, [⟨"prompts/a-b.txt", false⟩, ⟨"prompts/a_b.txt", false⟩])] := by
    decide +kernel
  rw [agents]
  exact ⟨_, _, Prod.ext rfl done, by decide +kernel, by decide +kernel, by decide +kernel⟩

end AgentKit
