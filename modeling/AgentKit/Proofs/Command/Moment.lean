/-
# The moment of a run

The moment of a run is recorded in the settings, and nothing else depends on it. Whether settings
can be kept does not depend on what they say, so a run announces the same at every moment, ends
in the same way and leaves the same tree, but for the time in the settings.
-/

import AgentKit.Command.Choice
import AgentKit.Command.Renewal
import AgentKit.Proofs.Settings.Storage

namespace AgentKit

open Files (Tree)

variable {root : Path} {time later : Timestamp} {tree : Tree}

/-- Trees that two moments leave: they hold the same, but the settings below a root may say that
they are from these moments. -/
structure SameButTime (root : Path) (time later : Timestamp) (first second : Tree) : Prop where
  current : second.current = first.current
  found : ∀ location, second.find? location = first.find? location ∨
    ∃ (settings : Settings) (base : Files.Location), first.reach root = .ok base ∧
      location = base ++ Settings.file.moves ∧
      first.find? location =
        some (.file (.text { settings with lastInstall := some time }.toText)) ∧
      second.find? location =
        some (.file (.text { settings with lastInstall := some later }.toText))

theorem SameButTime.refl (root : Path) (time later : Timestamp) (tree : Tree) :
    SameButTime root time later tree tree :=
  ⟨rfl, fun _ => .inl rfl⟩

/-- Whether settings can be kept does not depend on what they say. -/
theorem Settings.save_cases (root : Path) (tree : Tree) :
    (∃ after failure, ∀ settings : Settings,
        settings.save root tree = (after, .error failure)) ∨
      ∃ (ready : Tree) (base : Files.Location), ready.reach root = .ok base ∧
        ∀ settings : Settings, ∃ after, settings.save root tree = (after, .ok ()) ∧
          Tree.Written ready after (base ++ file.moves) (.text settings.toText) := by
  rcases tree.writeAtomically_cases (root.join file) with
    ⟨after, fault, failed⟩ | ⟨ready, place, leads, free, written⟩
  · exact .inl ⟨after, .files fault, fun settings => by simp only [save, failed]⟩
  · obtain ⟨base, reached, rfl⟩ := Tree.of_target?_join isOrdinary_file leads
    exact .inr ⟨ready, base, reached, fun settings =>
      ⟨_, by simp only [save, written], Tree.written_put leads free⟩⟩

/-- Settings that are kept at two moments leave the same but for the time. -/
theorem SameButTime.of_written {ready first second : Tree} {base : Files.Location}
    {settings : Settings} (reached : ready.reach root = .ok base)
    (early : Tree.Written ready first (base ++ Settings.file.moves)
      (.text { settings with lastInstall := some time }.toText))
    (late : Tree.Written ready second (base ++ Settings.file.moves)
      (.text { settings with lastInstall := some later }.toText)) :
    SameButTime root time later first second where
  current := late.current.trans early.current.symm
  found location := by
    rw [early.found, late.found]
    by_cases here : location = base ++ Settings.file.moves
    · simp only [here, if_true]
      exact .inr ⟨settings, base, early.keepsDirectories.reach reached, rfl, rfl, rfl⟩
    · exact .inl (by simp only [if_neg here])

/-- Runs of two moments: they announce the same, end in the same way, and leave the same but for
the time. -/
structure Run.SameButTime {α : Type} (root : Path) (time later : Timestamp) (first second : Run α) :
    Prop where
  tree : AgentKit.SameButTime root time later first.tree second.tree
  announced : second.announced = first.announced
  result : second.result = first.result

theorem Run.SameButTime.refl {α : Type} (root : Path) (time later : Timestamp) (run : Run α) :
    Run.SameButTime root time later run run :=
  ⟨.refl root time later run.tree, rfl, rfl⟩

namespace Job

theorem sameButTime_record (job : Job) (root : Path) (time later : Timestamp) (tree : Tree) :
    SameButTime root time later (job.record root time tree).1 (job.record root later tree).1 ∧
      (job.record root later tree).2 = (job.record root time tree).2 := by
  unfold record
  cases loadSettings tree root with
  | error trouble => exact ⟨.refl root time later tree, rfl⟩
  | ok settings =>
      rcases Settings.save_cases root tree with
        ⟨after, failure, failed⟩ | ⟨ready, base, reached, kept⟩
      · simp only [failed]
        exact ⟨.refl root time later after, trivial⟩
      · have stamped (moment : Timestamp) : job.stamp (settings.getD .default) moment =
            { job.stamp (settings.getD .default) time with lastInstall := some moment } := rfl
        obtain ⟨first, early, written⟩ := kept (job.stamp (settings.getD .default) time)
        obtain ⟨second, late, written'⟩ := kept (job.stamp (settings.getD .default) later)
        rw [stamped time] at written
        rw [stamped later] at written'
        simp only [early, late]
        exact ⟨.of_written reached written written', trivial⟩

theorem sameButTime_carryOut (job : Job) (root : Path) (time later : Timestamp)
    (shared : Option String) (tree : Tree) :
    SameButTime root time later (job.carryOut root time shared tree).1
        (job.carryOut root later shared tree).1 ∧
      (job.carryOut root later shared tree).2 = (job.carryOut root time shared tree).2 := by
  unfold carryOut
  cases job.loading.loadRoster root job.locale shared tree with
  | error trouble => exact ⟨.refl root time later tree, rfl⟩
  | ok roster =>
      rcases installed : installAll roster.agents job.locale root tree job.targets with
        ⟨middle, trouble | results⟩ <;> simp only [installed]
      · exact ⟨.refl root time later middle, trivial⟩
      · obtain ⟨same, ended⟩ := job.sameButTime_record root time later middle
        rcases early : job.record root time middle with ⟨first, trouble | ⟨⟩⟩ <;>
          rcases late : job.record root later middle with ⟨second, other | ⟨⟩⟩ <;>
          simp only [early, late, Except.error.injEq, reduceCtorEq] at same ended ⊢
        · exact ⟨same, ended⟩
        · exact ⟨same, trivial⟩

theorem sameButTime_run (job : Job) (root : Path) (time later : Timestamp) (tree : Tree) :
    Run.SameButTime root time later (job.run root time tree) (job.run root later tree) := by
  unfold run
  cases sharedRules job.rules job.profile with
  | error failure => exact .refl root time later _
  | ok shared =>
      obtain ⟨same, ended⟩ := job.sameButTime_carryOut root time later shared tree
      exact ⟨same, rfl, ended⟩

end Job

theorem Choice.sameButTime_run (choice : Choice) (root : Path) (time later : Timestamp)
    (tree : Tree) :
    Run.SameButTime root time later (choice.run root time tree) (choice.run root later tree) := by
  unfold run
  cases choice.job root tree with
  | error trouble => exact .refl root time later _
  | ok job => exact job.sameButTime_run root time later tree

theorem Renewal.sameButTime_run (options : LoadOptions) (root : Path) (time later : Timestamp)
    (tree : Tree) :
    Run.SameButTime root time later (run options root time tree) (run options root later tree) := by
  unfold run
  cases loadSettings tree root with
  | error trouble => exact .refl root time later _
  | ok settings =>
      dsimp only
      split
      · exact .refl root time later _
      · next target others _ =>
        have same := (job options settings (target :: others)).sameButTime_run root time later tree
        refine ⟨same.tree, ?_, ?_⟩
        · simp only [runJob, same.announced]
        · simp only [runJob, same.result]

end AgentKit
