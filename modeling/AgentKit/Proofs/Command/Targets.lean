/-
# The targets of a run

An installation is for the targets that are named, each of them once and in the order of the
first mention, or for all targets in the order of their registry. A renewal is for the targets
that the settings record, or else for those that are detected, which are some of the registry in
its order.

What the settings record is taken as it stands. Settings that a job has left name each of its
targets as often as the job was for it; but settings that were written by hand may name a target
twice, and then the renewal installs it twice and records it twice again.
-/

import AgentKit.Proofs.Command.Detection
import AgentKit.Proofs.Command.Failing
import AgentKit.Proofs.Command.Rules

namespace AgentKit

open Files (Tree)

variable {targets named listed : List Target} {tools : List String} {root : Path}
  {before middle after tree : Tree} {time : Timestamp}

/-! ## First mentions -/

/-- A list of the targets that are named, in the order in which they are first named. -/
structure IsFirstMentions (named listed : List Target) : Prop where
  members : ∀ target, target ∈ listed ↔ target ∈ named
  order : listed.Pairwise fun target other => named.idxOf target < named.idxOf other

theorem IsFirstMentions.nodup (mentions : IsFirstMentions named listed) : listed.Nodup := by
  refine mentions.order.imp ?_
  rintro target _ earlier rfl
  exact absurd earlier (Nat.lt_irrefl _)

namespace Choice

theorem mem_firstMentions {target : Target} : target ∈ firstMentions named ↔ target ∈ named := by
  induction named with
  | nil => rfl
  | cons first named ih =>
      rw [firstMentions, List.mem_cons, List.mem_cons, List.mem_filter, ih]
      by_cases same : target = first
      · simp [same]
      · simp [same]

theorem isFirstMentions_firstMentions (named : List Target) :
    IsFirstMentions named (firstMentions named) := by
  refine ⟨fun target => mem_firstMentions, ?_⟩
  induction named with
  | nil => exact .nil
  | cons first named ih =>
      have others : ∀ target ∈ (firstMentions named).filter (· ≠ first), first ≠ target := by
        intro target member
        have different := (List.mem_filter.mp member).2
        exact Ne.symm (by simpa using different)
      have behind : ∀ target ∈ (firstMentions named).filter (· ≠ first),
          (first :: named).idxOf target = named.idxOf target + 1 :=
        fun target member => List.idxOf_cons_ne _ (others target member)
      rw [firstMentions, List.pairwise_cons]
      constructor
      · intro target member
        rw [behind target member, List.idxOf_cons_self]
        exact Nat.succ_pos _
      · refine (ih.filter _).imp_of_mem ?_
        intro target other inside inside' earlier
        rw [behind target inside, behind other inside']
        exact Nat.succ_lt_succ earlier

theorem targetOf_eq_ok_iff {tool : String} {target : Target} :
    targetOf tool = .ok target ↔ Target.ofText? tool = some target := by
  unfold targetOf
  cases Target.ofText? tool <;> simp

theorem mapM_targetOf_eq_ok_iff :
    tools.mapM targetOf = .ok named ↔ tools.map Target.ofText? = named.map some := by
  induction tools generalizing named with
  | nil => cases named <;> simp [pure, Except.pure]
  | cons tool tools ih =>
      rw [List.mapM_cons, Tree.bind_eq_ok_iff]
      cases named with
      | nil => simp [Tree.bind_eq_ok_iff, pure, Except.pure]
      | cons target named =>
          simp [Tree.bind_eq_ok_iff, pure, Except.pure, targetOf_eq_ok_iff, ih]

/-- Tools name all targets in the order of the registry, or their own in the order of the first
mention. -/
theorem of_targetsOf (found : targetsOf tools = .ok targets) :
    (tools.any asksForAll ∧ targets = Target.all) ∨
      ∃ named, tools.map Target.ofText? = named.map some ∧ IsFirstMentions named targets := by
  unfold targetsOf at found
  split at found
  · next all => exact .inl ⟨all, (Except.ok.inj found).symm⟩
  · right
    cases each : tools.mapM targetOf with
    | error failure =>
        rw [each] at found
        contradiction
    | ok named =>
        rw [each] at found
        refine ⟨named, mapM_targetOf_eq_ok_iff.mp each, ?_⟩
        rw [← Except.ok.inj found]
        exact isFirstMentions_firstMentions named

end Choice

/-! ## Recorded and detected targets -/

/-- No two tools of the settings name one target. -/
def Settings.NamesOnce (settings : Settings) : Prop :=
  settings.tools.Pairwise fun tool other =>
    ∀ target, Target.ofText? tool = some target → Target.ofText? other ≠ some target

theorem Settings.nodup_targets_iff {settings : Settings} :
    settings.targets.Nodup ↔ settings.NamesOnce := by
  rw [targets, List.Nodup, List.pairwise_filterMap, NamesOnce]
  constructor
  · intro distinct
    refine distinct.imp ?_
    intro tool other apart target first second
    exact apart target first target second rfl
  · intro distinct
    refine distinct.imp ?_
    rintro tool other apart target first _ second rfl
    exact apart target first second

theorem Target.nodup_detect (tree : Tree) (root : Path) : (detect tree root).Nodup := by
  have nodup : Target.all.Nodup := by decide
  exact nodup.filter _

/-- A renewal is for the recorded targets if there are any, and otherwise for those of the
registry that are detected, in the order of the registry. -/
theorem Renewal.targets_eq (settings : Option Settings) (root : Path) (tree : Tree) :
    (∃ recorded, settings = some recorded ∧ recorded.targets ≠ [] ∧
        Renewal.targets settings root tree = recorded.targets) ∨
      ((∀ recorded, settings = some recorded → recorded.targets = []) ∧
        Renewal.targets settings root tree =
          Target.all.filter (Target.isDetected tree root)) := by
  cases settings with
  | none => exact .inr ⟨fun recorded same => absurd same (by simp), rfl⟩
  | some settings =>
      rw [Renewal.targets, Option.map_some, Option.getD_some]
      cases known : settings.targets with
      | nil => exact .inr ⟨fun recorded same => Option.some.inj same ▸ known, rfl⟩
      | cons target others => exact .inl ⟨settings, rfl, by simp [known], known.symm⟩

/-! ## What is installed and recorded -/

/-- Targets of which one cannot be installed are installed up to the first such one. -/
theorem of_installAll_eq_error {agents : List Agent} {locale : Locale} {trouble : Trouble}
    (failed : installAll agents locale root before targets = (after, .error trouble)) :
    ∃ earlier target later middle results failure, targets = earlier ++ target :: later ∧
      installAll agents locale root before earlier = (middle, .ok results) ∧
      target.install agents locale root middle = (after, .error failure) ∧
      trouble = ⟨some (.installing target), failure⟩ := by
  induction targets generalizing before with
  | nil => cases failed
  | cons target targets ih =>
      rw [installAll] at failed
      rcases first : target.install agents locale root before with ⟨middle, failure | outcomes⟩ <;>
        simp only [first] at failed
      · obtain ⟨rfl, rfl⟩ : middle = after ∧ _ = trouble := by simpa using failed
        exact ⟨[], target, targets, before, [], failure, rfl, rfl, first, rfl⟩
      · rcases rest : installAll agents locale root middle targets with ⟨last, other | results⟩ <;>
          simp only [rest] at failed
        · obtain ⟨rfl, rfl⟩ : last = after ∧ other = trouble := by simpa using failed
          obtain
            ⟨earlier, stuck, later, reached, results, failure, whole, installed, stopped, told⟩ :=
            ih rest
          refine ⟨target :: earlier, stuck, later, reached, (target, outcomes) :: results, failure,
            by rw [whole]; rfl, ?_, stopped, told⟩
          simp only [installAll, first, installed]
        · simp at failed

/-- What a run does for the targets of a job. -/
structure Job.Serves (job : Job) (root : Path) (before : Tree) (run : Run Installed) : Prop where
  /-- If it succeeds, the targets of the job were installed one after the other, and their keys
  are recorded. -/
  succeeds : ∀ installed, run.result = .ok installed → installed.targets.map (·.1) = job.targets ∧
    ∃ saved : Settings, run.tree.readText (root.join Settings.file) = .ok saved.toText ∧
      saved.tools = job.targets.map (·.key)
  /-- If it fails with a target, the targets in front of it were installed. -/
  stops : ∀ target failure, run.result = .error ⟨some (.installing target), failure⟩ →
    ∃ earlier later shared roster middle results, job.targets = earlier ++ target :: later ∧
      job.loading.loadRoster root job.locale shared before = .ok roster ∧
      installAll roster.agents job.locale root before earlier = (middle, .ok results) ∧
      target.install roster.agents job.locale root middle = (run.tree, .error failure)

theorem LoadOptions.task_of_loadRoster {options : LoadOptions} {locale : Locale}
    {shared : Option String} {trouble : Trouble}
    (failed : options.loadRoster root locale shared before = .error trouble) :
    trouble.task = some .loadingDefinitions := by
  unfold loadRoster at failed
  split at failed
  · contradiction
  · rw [← Except.error.inj failed]

theorem Job.task_of_record {job : Job} {trouble : Trouble}
    (failed : job.record root time before = (after, .error trouble)) :
    trouble.task = some .loadingSettings ∨ trouble.task = some .savingSettings := by
  unfold record at failed
  cases loaded : loadSettings before root with
  | error other =>
      obtain ⟨failure, _, rfl⟩ := loadSettings_eq_error_iff.mp loaded
      simp only [loaded, Prod.mk.injEq, Except.error.injEq] at failed
      exact .inl (failed.2 ▸ rfl)
  | ok settings =>
      simp only [loaded] at failed
      rcases kept : (job.stamp (settings.getD .default) time).save root before with
        ⟨last, failure | ⟨⟩⟩ <;>
        simp only [kept, Prod.mk.injEq, Except.error.injEq, reduceCtorEq, and_false] at failed
      exact .inr (failed.2 ▸ rfl)

theorem Job.serves_run (job : Job) (root : Path) (time : Timestamp) (before : Tree) :
    job.Serves root before (job.run root time before) := by
  constructor
  case succeeds =>
    intro installed done
    obtain ⟨_, _, _, _, old, _, _, loaded, first, _, kept, rfl⟩ := Job.steps_of_run done
    exact ⟨map_fst_of_installAll (fun _ => LoadRequest.slash_notMem_stem loaded) first,
      job.stamp (old.getD .default) time, Settings.readText_of_deliver kept, rfl⟩
  case stops =>
    intro target failure failed
    unfold Job.run at failed ⊢
    cases rules : sharedRules job.rules job.profile with
    | error other => simp [rules, Run.refused] at failed
    | ok shared =>
        simp only [rules, carryOut] at failed ⊢
        cases found : job.loading.loadRoster root job.locale shared before with
        | error trouble =>
            simp only [found, Except.error.injEq] at failed
            have task := LoadOptions.task_of_loadRoster found
            simp [failed] at task
        | ok roster =>
            rcases first : installAll roster.agents job.locale root before job.targets with
              ⟨middle, trouble | results⟩ <;> simp only [found, first] at failed ⊢
            · obtain
                ⟨earlier, stuck, later, reached, results, why, whole, installed, stopped, told⟩ :=
                of_installAll_eq_error first
              simp only [told, Except.error.injEq, Trouble.mk.injEq, Option.some.injEq,
                Task.installing.injEq] at failed
              obtain ⟨rfl, rfl⟩ := failed
              exact ⟨earlier, later, shared, roster, reached, results, whole, found, installed,
                stopped⟩
            · rcases second : job.record root time middle with ⟨last, trouble | ⟨⟩⟩ <;>
                simp only [second] at failed ⊢
              · have task := task_of_record second
                simp [Except.error.inj failed] at task
              · contradiction

end AgentKit
