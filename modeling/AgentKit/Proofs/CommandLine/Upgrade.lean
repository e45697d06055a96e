/-
# Upgrades after an installation

An upgrade after an installation is a fixed point, and so is every further one: it
installs the same targets with the same agents, finds every file, and changes nothing but
the time in the settings. Rules and profiles are not gathered up, because the settings
keep the rules of the user alone.

Two things are required of the tree. A root that is given must lead to a directory before
the installation, or must not lead upwards: a root that leads upwards through a missing
directory hides settings and overrides from the installation, which makes the directory,
and then shows them to the upgrade. And the definitions must not lie in the directory of
the toolkit, where the settings file would count as one.
-/

import AgentKit.Proofs.Command.Renewal
import AgentKit.Proofs.Command.Rules
import AgentKit.Proofs.CommandLine.Performance
import AgentKit.Proofs.CommandLine.Tools
import AgentKit.Proofs.Plan.Installed
import Mathlib

namespace AgentKit

open Files (Tree Location)
open Files.Tree (KeepsDirectories)

/-- The settings that an installation keeps. -/
def Choice.settings (choice : Choice) (root : Path) (time : Timestamp) (tree : Tree) :
    Except Trouble Settings := do
  let job ← choice.job root tree
  let settings ← loadSettings tree root
  .ok (job.stamp (settings.getD .default) time)

/-- The job of a choice is for its targets and with its definitions. -/
theorem Choice.of_job {choice : Choice} {root : Path} {tree : Tree} {job : Job}
    (made : choice.job root tree = .ok job) :
    Choice.targetsOf choice.tools = .ok job.targets ∧ job.loading = choice.loading ∧
      ∃ settings, Settings.load tree root = .ok settings := by
  obtain ⟨targets, settings, _, named, loaded, _, rfl⟩ := job_eq_ok_iff.mp made
  exact ⟨named, rfl, settings, loaded⟩

namespace CommandLine

variable {environment : Environment} {words : List String} {invocation : Invocation}
  {time later : Timestamp} {before tree after : Tree} {given : Option Path} {json : Bool}
  {choice : Choice} {saved old : Settings} {installed : Installed}
  {earlier : List (Bool × Timestamp)}

/-- The invocation that upgrades and chooses nothing but the root and the definitions. -/
def upgradeOf (given definitions : Option Path) (json : Bool) : Invocation :=
  ⟨given, json, .upgrade ⟨none, definitions⟩⟩

/-- The tree after upgrades, one after the other. -/
def afterUpgrades (given definitions : Option Path) (tree : Tree)
    (upgrades : List (Bool × Timestamp)) : Tree :=
  upgrades.foldl
    (fun tree upgrade => ((upgradeOf given definitions upgrade.1).perform upgrade.2 tree).1) tree

/-- An installation that succeeds has carried out the job of its choice, and it is
settled. -/
theorem of_install
    (done : ((⟨given, json, .install choice⟩ : Invocation).perform time before).2.exitCode = 0)
    (steady : ∀ path, given = some path → before.Steady path)
    (outside : ∀ path, choice.loading.definitions = some path →
      IsOutside before (ProjectRoot.resolve before given) path)
    (some_tool : choice.tools ≠ [])
    (kept : choice.settings (ProjectRoot.resolve before given) time before = .ok saved) :
    ∃ (job : Job) (old : Settings) (shared : Option String) (installed : Installed),
      job.loading = choice.loading ∧ saved = job.stamp old time ∧
      (choice.run (ProjectRoot.resolve before given) time before).result = .ok installed ∧
      job.Basis (ProjectRoot.resolve before given) shared installed.roster before ∧
      job.Settled (ProjectRoot.resolve before given) installed.roster saved before
        ((⟨given, json, .install choice⟩ : Invocation).perform time before).1 ∧
      installed.locale = job.locale ∧
      installed.targets.map (fun result => (result.1, result.2.map (·.path))) =
        (renewed job.targets job.locale installed.roster.agents).map
          fun result => (result.1, result.2.map (·.path)) := by
  obtain ⟨job, made, kept⟩ := Tree.bind_eq_ok_iff.mp kept
  obtain ⟨settings, loaded, kept⟩ := Tree.bind_eq_ok_iff.mp kept
  obtain ⟨named, loading, _⟩ := Choice.of_job made
  have ran : choice.run (ProjectRoot.resolve before given) time before =
      job.run (ProjectRoot.resolve before given) time before := by
    rw [Choice.run, made]
  obtain ⟨installed, result⟩ := exitCode_output.mp done
  rw [ran] at result
  obtain ⟨shared, rules, carried⟩ := Job.of_run result
  obtain ⟨roster, _, _, agents, _, _, whole⟩ := Job.carryOut_eq_ok_iff.mp carried
  have same : installed.roster = roster := by rw [whole]
  have basis : job.Basis (ProjectRoot.resolve before given) shared installed.roster before :=
    { steady := ProjectRoot.steady_resolve steady
      outside := fun path definitions => outside path (loading ▸ definitions)
      rules := rules
      loaded := same ▸ agents
      some_target := Choice.targetsOf_ne_nil named some_tool }
  obtain ⟨settled, locale, _, paths⟩ :=
    basis.settled (loadSettings_eq_ok_iff.mp loaded) carried
  refine ⟨job, settings.getD .default, shared, installed, loading, (Except.ok.inj kept).symm,
    ran ▸ result, basis, ?_, locale, paths⟩
  rw [← Except.ok.inj kept]
  have tree : ((⟨given, json, .install choice⟩ : Invocation).perform time before).1 =
      (job.run (ProjectRoot.resolve before given) time before).tree := congrArg Run.tree ran
  rw [tree]
  exact settled

/-! ## Upgrading -/

/-- One upgrade of a settled job. -/
theorem upgrade_of_settled {job : Job} {shared : Option String} {roster : Roster}
    (basis : job.Basis (ProjectRoot.resolve before given) shared roster before)
    (settled : job.Settled (ProjectRoot.resolve before given) roster (job.stamp old time) before
      tree)
    (reads : (job.stamp old time).ReadsBack) (later : Timestamp) (json : Bool) :
    ∃ after output, (upgradeOf given job.loading.definitions json).perform later tree =
        (after, output) ∧ output.exitCode = 0 ∧
      ProjectRoot.resolve tree given = ProjectRoot.resolve before given ∧
      (Renewal.run ⟨none, job.loading.definitions⟩ (ProjectRoot.resolve before given) later
          tree).result =
        .ok (.renewed ⟨job.locale, roster, renewed job.targets job.locale roster.agents⟩) ∧
      job.Settled (ProjectRoot.resolve before given) roster (job.stamp old later) before after ∧
      KeepsDirectories tree after ∧
      ∀ location, (∀ base, tree.reach (ProjectRoot.resolve before given) = .ok base →
        location ≠ base ++ Settings.file.moves) → after.find? location = tree.find? location := by
  have rooted := settled.resolve
  obtain ⟨after, carried, again, keeps, unchanged⟩ := basis.carryOut_again settled reads later
  obtain ⟨final, result⟩ :=
    Job.run_renewal (settled.load reads) basis.some_target basis.rules carried
  have performed : (upgradeOf given job.loading.definitions json).perform later tree =
      Presentation.renewal.ofRun json (Renewal.run ⟨none, job.loading.definitions⟩
        (ProjectRoot.resolve tree given) later tree) := rfl
  rw [rooted] at performed
  exact ⟨after, _, performed.trans (Prod.ext final rfl), exitCode_output.mpr ⟨_, result⟩, rooted,
    result, again, keeps, unchanged⟩

/-- Upgrades keep a job settled. -/
theorem settled_afterUpgrades {job : Job} {shared : Option String} {roster : Roster}
    (basis : job.Basis (ProjectRoot.resolve before given) shared roster before)
    (settled : job.Settled (ProjectRoot.resolve before given) roster (job.stamp old time) before
      tree)
    (reads : ∀ moment ∈ time :: earlier.map (·.2), (job.stamp old moment).ReadsBack) :
    ∃ last ∈ time :: earlier.map (·.2),
      job.Settled (ProjectRoot.resolve before given) roster (job.stamp old last) before
        (afterUpgrades given job.loading.definitions tree earlier) ∧
      KeepsDirectories tree (afterUpgrades given job.loading.definitions tree earlier) ∧
      ∀ location, (∀ base, tree.reach (ProjectRoot.resolve before given) = .ok base →
          location ≠ base ++ Settings.file.moves) →
        (afterUpgrades given job.loading.definitions tree earlier).find? location =
          tree.find? location := by
  induction earlier generalizing tree time with
  | nil => exact ⟨time, List.mem_cons_self, settled, .refl tree, fun _ _ => rfl⟩
  | cons upgrade earlier ih =>
      obtain ⟨after, output, performed, _, _, _, again, keeps, unchanged⟩ :=
        upgrade_of_settled basis settled (reads time List.mem_cons_self) upgrade.2 upgrade.1
      obtain ⟨last, member, settled_last, keeps', unchanged'⟩ :=
        ih again fun moment member => reads moment (List.mem_cons_of_mem _ member)
      have step : afterUpgrades given job.loading.definitions tree (upgrade :: earlier) =
          afterUpgrades given job.loading.definitions after earlier := by
        rw [afterUpgrades, List.foldl_cons, performed, afterUpgrades]
      rw [step]
      refine ⟨last, List.mem_cons_of_mem _ member, settled_last, keeps.trans keeps',
        fun location elsewhere => ?_⟩
      rw [unchanged' location fun base reached => ?_, unchanged location elsewhere]
      exact elsewhere base (settled.reach_of_keeps keeps reached)

/-- What an upgrade has done after an installation and further upgrades. -/
structure Renews (root : Path) (installed renewed : Installed) (saved : Settings)
    (time : Timestamp) (origin after : Tree) : Prop where
  locale : renewed.locale = installed.locale
  /-- The agents are the same, and so are the skipped files. -/
  roster : renewed.roster = installed.roster
  /-- The targets are the same, in the same order and with the same files. -/
  targets : renewed.targets.map (fun result => (result.1, result.2.map (·.path))) =
    installed.targets.map fun result => (result.1, result.2.map (·.path))
  /-- Every file was there. -/
  existed : ∀ result ∈ renewed.targets, ∀ delivered ∈ result.2, delivered.existed = true
  /-- Nothing but the settings is changed, below the root or elsewhere. -/
  unchanged : ∀ location,
    (∀ base, origin.reach root = .ok base → location ≠ base ++ Settings.file.moves) →
      after.find? location = origin.find? location
  /-- Of the settings only the time is new. -/
  settings : Settings.load after root = .ok (some { saved with lastInstall := some time })

/-- After an installation, every upgrade with the same root and definitions and without
other choices succeeds, however many upgrades went before it, and renews what was
installed. The settings that the installation has kept are loaded back by hypothesis. -/
theorem upgrade_of_install
    (asked : Request.ofWords environment words = .run ⟨given, json, .install choice⟩)
    (done : (CommandLine.run environment words time before).2.exitCode = 0)
    (steady : ∀ path, given = some path → before.Steady path)
    (outside : ∀ path, choice.loading.definitions = some path →
      IsOutside before (ProjectRoot.resolve before given) path)
    (kept : choice.settings (ProjectRoot.resolve before given) time before = .ok saved)
    (reads : ∀ moment ∈ time :: later :: earlier.map (·.2),
      { saved with lastInstall := some moment }.ReadsBack) :
    ∃ installed, (choice.run (ProjectRoot.resolve before given) time before).result =
        .ok installed ∧
      Settings.load (CommandLine.run environment words time before).1
        (ProjectRoot.resolve before given) = .ok (some saved) ∧
      ∀ environment' words' json', Request.ofWords environment' words' =
          .run (upgradeOf given choice.loading.definitions json') →
        ∃ tree after output renewed,
          tree = afterUpgrades given choice.loading.definitions
            (CommandLine.run environment words time before).1 earlier ∧
          CommandLine.run environment' words' later tree = (after, output) ∧
          output.exitCode = 0 ∧
          ProjectRoot.resolve tree given = ProjectRoot.resolve before given ∧
          (Renewal.run ⟨none, choice.loading.definitions⟩ (ProjectRoot.resolve before given) later
            tree).result = .ok (.renewed renewed) ∧
          Renews (ProjectRoot.resolve before given) installed renewed saved later
            (CommandLine.run environment words time before).1 after := by
  have some_tool := tools_of_ofWords asked
  rw [run_of_asked asked] at done ⊢
  obtain ⟨job, old, shared, installed, loading, rfl, result, basis, settled, locale, paths⟩ :=
    of_install done steady outside some_tool kept
  rw [← loading]
  refine ⟨installed, result, settled.load (reads time List.mem_cons_self), ?_⟩
  intro environment' words' json' asked'
  have before_reads : ∀ moment ∈ time :: earlier.map (·.2), (job.stamp old moment).ReadsBack := by
    intro moment member
    refine reads moment ?_
    rcases List.mem_cons.mp member with here | further
    · exact here ▸ List.mem_cons_self
    · exact List.mem_cons_of_mem _ (List.mem_cons_of_mem _ further)
  obtain ⟨last, member, settled', keeps, unchanged⟩ :=
    settled_afterUpgrades basis settled before_reads
  obtain ⟨after, output, performed, success, rooted, renewal, again, _, unchanged'⟩ :=
    upgrade_of_settled basis settled' (before_reads last member) later json'
  refine ⟨_, after, output, _, rfl, ?_, success, rooted, renewal, ?_⟩
  · rw [run_of_asked asked', performed]
  · refine
      { locale := locale.symm
        roster := rfl
        targets := paths.symm
        existed := ?_
        unchanged := fun location elsewhere => ?_
        settings := again.load (reads later (by simp)) }
    · intro result member delivered inside
      obtain ⟨target, _, rfl⟩ := List.mem_map.mp member
      obtain ⟨artifact, _, rfl⟩ := List.mem_map.mp inside
      rfl
    · rw [unchanged' location fun base reached => ?_, unchanged location elsewhere]
      exact elsewhere base (settled.reach_of_keeps keeps reached)

/-! ## A root that leads upwards -/

def sampleTime : Timestamp := ⟨⟨2024, 1, 1⟩, 0, 0, 0, 0⟩

/-- A tree with one definition, and with an override below `b` that is not text. -/
def sampleTree : Tree where
  entries :=
    [(["d"], .directory), (["d", "x.yaml"], .file (.text Target.twinText)), (["b"], .directory),
     (["b", ".sdd-toolkit"], .directory), (["b", ".sdd-toolkit", "agents"], .directory),
     (["b", ".sdd-toolkit", "agents", "x.yaml"], .file (.binary ⟨#[255]⟩))]
  workingDirectory := []

def sampleChoice : Choice where
  tools := ["web"]
  rules := none
  rulesFile := none
  profile := none
  loading := ⟨none, some "d"⟩

def sampleJob : Job where
  targets := [.web]
  rules := none
  profile := none
  locale := .english
  loading := ⟨none, some "d"⟩

def sampleSettings : Settings :=
  sampleJob.stamp .default sampleTime

def sampleEnvironment : Environment := ⟨none, none, none⟩

def installWords (root : String) : List String :=
  ["--root", root, "install", "--tool", "web", "--definitions", "d"]

def upgradeWords (root : String) : List String :=
  ["--root", root, "upgrade", "--definitions", "d"]

/-- The settings as a text. -/
def sampleText : String :=
  "version: 1\nlocale: en\ntools:\n- web\n" ++
    "toolkit_version: 0.1.0\nlast_install: 2024-01-01T00:00:00Z\n"

/-- The settings as a document. -/
def sampleDocument : Yaml.LinkedDocument where
  root := .mapping .none
    [(.scalar .none .plain "version".toList, .scalar .none .plain "1".toList),
     (.scalar .none .plain "locale".toList, .scalar .none .plain "en".toList),
     (.scalar .none .plain "tools".toList,
       .sequence .none [.scalar .none .plain "web".toList]),
     (.scalar .none .plain "toolkit_version".toList, .scalar .none .plain "0.1.0".toList),
     (.scalar .none .plain "last_install".toList,
       .scalar .none .plain "2024-01-01T00:00:00Z".toList)]
  anchors := []

theorem readsBack_sample : sampleSettings.ReadsBack := by
  have written : sampleSettings.toText = sampleText := by decide +kernel
  have parsed : Yaml.documentOf sampleText = .ok (some sampleDocument) := by cbv
  have read : Settings.ofDocument sampleDocument = .ok sampleSettings := by rfl
  rw [Settings.ReadsBack, written, Settings.ofText, parsed]
  exact read

/-- The prompt of the agent that the definition makes. -/
def prompt : Artifact := ⟨"prompts/x.txt", Rendering.plainPrompt (Target.twin "x")⟩

theorem plan_sample : Target.web.plan .english [Target.twin "x"] = [prompt] := by
  have slug : (Target.twin "x").slug = "x" := by rfl
  simp only [Target.plan, List.flatMap_cons, List.flatMap_nil, Target.agentArtifacts, slug,
    Target.sharedArtifacts]
  rfl

/-- The tree that an installation of the sample leaves. -/
def sampleAfter (root : Path) : Tree :=
  (deliver root [sampleSettings.artifact] (deliver root [prompt] sampleTree).1).1

/-- What an installation of the sample tells. -/
def sampleInstalled : Installed where
  locale := .english
  roster := [("x.yaml", .loaded (Target.twin "x"))]
  targets := [(.web, [⟨"prompts/x.txt", false⟩])]

/-- The agent of the sample is loaded where its definition is the only one. -/
theorem load_of_sample {root : Path} {tree : Tree}
    (unsorted : (sampleJob.loading.request root .english none).unsortedFiles tree =
      .ok ["x.yaml"])
    (read : (sampleJob.loading.request root .english none).readDefinition tree "x.yaml" =
      .ok (Target.twinText, .default)) :
    (sampleJob.loading.request root .english none).load tree = .ok sampleInstalled.roster := by
  have listed : (sampleJob.loading.request root .english none).files tree = .ok ["x.yaml"] := by
    rw [LoadRequest.files, unsorted, Except.map, List.mergeSort_singleton]
  rw [LoadRequest.load_of_files listed, Roster.ofFiles, List.map_cons, List.map_nil,
    LoadRequest.agentOf, read]
  simp only [LoadRequest.compose, Target.ofText_twinText]
  rfl

theorem load_sample {root : Path} (missing : root = "a" ∨ root = "a/../b") :
    (sampleJob.loading.request root .english none).load sampleTree =
      .ok sampleInstalled.roster :=
  load_of_sample rfl (by rcases missing with rfl | rfl <;> rfl)

/-- The prompt and the settings are new, whether or not the root leads upwards. -/
theorem delivered_sample {root : Path} (missing : root = "a" ∨ root = "a/../b") :
    Settings.load sampleTree root = .ok none ∧
      (deliver root [prompt] sampleTree).2 = .ok [⟨"prompts/x.txt", false⟩] ∧
      Settings.load (deliver root [prompt] sampleTree).1 root = .ok none ∧
      (deliver root [sampleSettings.artifact] (deliver root [prompt] sampleTree).1).2 =
        .ok [⟨Settings.file, false⟩] := by
  rcases missing with rfl | rfl <;> decide +kernel

theorem job_of_sample {root : Path} {tree : Tree} (unsettled : Settings.load tree root = .ok none) :
    sampleChoice.job root tree = .ok sampleJob := by
  rw [Choice.job, loadSettings_eq_ok_iff.mpr unsettled]
  rfl

theorem job_sample {root : Path} (missing : root = "a" ∨ root = "a/../b") :
    sampleChoice.job root sampleTree = .ok sampleJob :=
  job_of_sample (delivered_sample missing).1

/-- The agent of the sample is installed by writing its prompt. -/
theorem installAll_of_sample {root : Path} {tree : Tree} {outcomes : List Delivered}
    (written : (deliver root [prompt] tree).2 = .ok outcomes) :
    installAll sampleInstalled.roster.agents .english root tree [.web] =
      ((deliver root [prompt] tree).1, .ok [(.web, outcomes)]) := by
  have agents : sampleInstalled.roster.agents = [Target.twin "x"] := rfl
  rw [agents, installAll_cons_eq_ok_iff]
  exact ⟨_, _, [], plan_sample ▸ Prod.ext rfl written, rfl, rfl⟩

/-- The sample is installed wherever its agent is the only one, nothing was recorded, and the
prompt and the settings can be written. -/
theorem run_of_sample {root : Path} {tree : Tree} {prompts settings : List Delivered}
    (unsettled : Settings.load tree root = .ok none)
    (loaded : (sampleJob.loading.request root .english none).load tree =
      .ok sampleInstalled.roster)
    (written : (deliver root [prompt] tree).2 = .ok prompts)
    (still : Settings.load (deliver root [prompt] tree).1 root = .ok none)
    (kept : (deliver root [sampleSettings.artifact] (deliver root [prompt] tree).1).2 =
      .ok settings) :
    sampleChoice.run root sampleTime tree =
      { tree := (deliver root [sampleSettings.artifact] (deliver root [prompt] tree).1).1
        announced := [Phrase.loading.wording .english]
        result := .ok { sampleInstalled with targets := [(.web, prompts)] } } := by
  rw [Choice.run, job_of_sample unsettled]
  exact Job.run_of_steps rfl loaded (installAll_of_sample written) still (Prod.ext rfl kept)

theorem installed_sample {root : Path} (missing : root = "a" ∨ root = "a/../b") :
    sampleChoice.run root sampleTime sampleTree =
      { tree := sampleAfter root
        announced := [Phrase.loading.wording .english]
        result := .ok sampleInstalled } := by
  obtain ⟨unsettled, written, still, kept⟩ := delivered_sample missing
  exact run_of_sample unsettled (load_sample missing) written still kept

theorem asked_sample {root : Path} (missing : root = "a" ∨ root = "a/../b") :
    Request.ofWords sampleEnvironment (installWords root) =
        .run ⟨some root, false, .install sampleChoice⟩ ∧
      Request.ofWords sampleEnvironment (upgradeWords root) =
        .run (upgradeOf (some root) (some "d") false) := by
  rcases missing with rfl | rfl <;> decide

/-- The installation of the sample succeeds and keeps its settings. -/
theorem install_sample {root : Path} (missing : root = "a" ∨ root = "a/../b") :
    (CommandLine.run sampleEnvironment (installWords root) sampleTime sampleTree).1 =
        sampleAfter root ∧
      (CommandLine.run sampleEnvironment (installWords root) sampleTime sampleTree).2.exitCode =
        0 ∧
      sampleChoice.settings root sampleTime sampleTree = .ok sampleSettings := by
  have ran := installed_sample missing
  rw [run_of_asked (asked_sample missing).1]
  refine ⟨congrArg Run.tree ran, exitCode_output.mpr ⟨_, congrArg Run.result ran⟩, ?_⟩
  rw [Choice.settings, job_sample missing,
    loadSettings_eq_ok_iff.mpr (delivered_sample missing).1]
  rfl

/-- Below a root that is missing but does not lead upwards, upgrades repeat the
installation. -/
theorem upgrade_below_missing :
    ∃ installed after output renewed,
      CommandLine.run sampleEnvironment (upgradeWords "a") sampleTime
          (afterUpgrades (some "a") (some "d") (sampleAfter "a") [(true, sampleTime)]) =
        (after, output) ∧
      output.exitCode = 0 ∧
      Renews "a" installed renewed sampleSettings sampleTime (sampleAfter "a") after := by
  have missing : ("a" : Path) = "a" ∨ ("a" : Path) = "a/../b" := .inl rfl
  obtain ⟨left, done, kept⟩ := install_sample missing
  have steady : ∀ path, some "a" = some path → sampleTree.Steady path := by
    rintro path ⟨⟩
    exact .inr (by decide)
  have outside : ∀ path, sampleChoice.loading.definitions = some path →
      IsOutside sampleTree "a" path := by
    rintro path ⟨⟩ base reached
    have unreached : sampleTree.reach "a" = .error .notFound := by rfl
    cases unreached.symm.trans reached
  have reads : ∀ moment ∈ sampleTime :: sampleTime :: [(true, sampleTime)].map (·.2),
      { sampleSettings with lastInstall := some moment }.ReadsBack := by
    intro moment member
    obtain rfl : moment = sampleTime := by simpa using member
    exact readsBack_sample
  obtain ⟨installed, _, _, renews⟩ :=
    upgrade_of_install (asked_sample missing).1 done steady outside kept reads
  obtain ⟨_, after, output, renewed, rfl, ran, success, _, _, whole⟩ :=
    renews sampleEnvironment (upgradeWords "a") false (asked_sample missing).2
  rw [left] at ran whole
  exact ⟨installed, after, output, renewed, ran, success, whole⟩

/-- What the upgrade finds below the root that leads upwards. -/
theorem found_above_missing :
    (sampleAfter "a/../b").isThere (Path.join "a/../b" Settings.file) ∧
      (sampleAfter "a/../b").reach "a/../b" = .ok ["b"] ∧
      (sampleAfter "a/../b").reach "d" = .ok ["d"] ∧
      (sampleJob.loading.request "a/../b" .english none).unsortedFiles (sampleAfter "a/../b") =
        .ok ["x.yaml"] ∧
      (sampleJob.loading.request "a/../b" .english none).readDefinition (sampleAfter "a/../b")
        "x.yaml" = .error .notText ∧
      (deliver "a/../b" [sampleSettings.artifact] (sampleAfter "a/../b")).2 =
        .ok [⟨Settings.file, true⟩] := by
  decide +kernel

/-- The upgrade of the sample below the root that leads upwards loads the settings, but
not the agent. -/
theorem renewal_above_missing :
    (Renewal.run ⟨none, some "d"⟩ "a/../b" sampleTime (sampleAfter "a/../b")).result =
      .ok (.renewed ⟨.english, [("x.yaml", .skipped (.unreadable .notText))], [(.web, [])]⟩) := by
  obtain ⟨_, _, _, unsorted, unreadable, again⟩ := found_above_missing
  obtain ⟨_, _, _, kept⟩ := delivered_sample (.inr rfl)
  have read : (sampleAfter "a/../b").readText (Path.join "a/../b" Settings.file) =
      .ok sampleSettings.toText := Settings.readText_of_deliver (Prod.ext rfl kept)
  have loaded : Settings.load (sampleAfter "a/../b") "a/../b" = .ok (some sampleSettings) :=
    Settings.load_eq_ok_some_iff.mpr ⟨_, read, readsBack_sample⟩
  have listed : (sampleJob.loading.request "a/../b" .english none).files
      (sampleAfter "a/../b") = .ok ["x.yaml"] := by
    rw [LoadRequest.files, unsorted, Except.map, List.mergeSort_singleton]
  have roster : (sampleJob.loading.request "a/../b" .english none).load (sampleAfter "a/../b") =
      .ok [("x.yaml", .skipped (.unreadable .notText))] := by
    rw [LoadRequest.load_of_files listed, Roster.ofFiles, List.map_cons, List.map_nil,
      LoadRequest.agentOf, unreadable]
    rfl
  have recorded : sampleJob.record "a/../b" sampleTime (sampleAfter "a/../b") =
      ((deliver "a/../b" [sampleSettings.artifact] (sampleAfter "a/../b")).1, .ok ()) :=
    Job.record_eq_ok_iff.mpr ⟨_, loaded, _, Prod.ext rfl again⟩
  have carried := Job.carryOut_eq_ok_iff.mpr ⟨_, _, _, roster, rfl, recorded, rfl⟩
  exact (Job.run_renewal loaded (by simp [sampleJob]) rfl carried).2

/-- Below a root that leads upwards out of a missing directory, the installation makes the
directory, and the upgrade finds the override that the installation could not see. -/
theorem upgrade_above_missing :
    sampleSettings.ReadsBack ∧
      (∀ tree, tree = sampleTree ∨ tree = sampleAfter "a/../b" →
        IsOutside tree "a/../b" "d") ∧
      (CommandLine.run sampleEnvironment (installWords "a/../b") sampleTime sampleTree).1 =
        sampleAfter "a/../b" ∧
      (CommandLine.run sampleEnvironment (installWords "a/../b") sampleTime sampleTree).2.exitCode =
        0 ∧
      sampleChoice.settings "a/../b" sampleTime sampleTree = .ok sampleSettings ∧
      Request.ofWords sampleEnvironment (upgradeWords "a/../b") =
        .run (upgradeOf (some "a/../b") (some "d") false) ∧
      ∃ installed renewed,
        (sampleChoice.run "a/../b" sampleTime sampleTree).result = .ok installed ∧
        (Renewal.run ⟨none, some "d"⟩ "a/../b" sampleTime (sampleAfter "a/../b")).result =
          .ok (.renewed renewed) ∧
        renewed.roster.agents ≠ installed.roster.agents := by
  have missing : ("a/../b" : Path) = "a" ∨ ("a/../b" : Path) = "a/../b" := .inr rfl
  obtain ⟨left, done, kept⟩ := install_sample missing
  refine ⟨readsBack_sample, ?_, left, done, kept, (asked_sample missing).2, sampleInstalled, _,
    congrArg Run.result (installed_sample missing), renewal_above_missing, by decide⟩
  · rintro tree (rfl | rfl) base reached
    · have unreached : sampleTree.reach "a/../b" = .error .notFound := by rfl
      cases unreached.symm.trans reached
    · obtain ⟨_, led, definitions, _⟩ := found_above_missing
      rw [led] at reached
      rw [definitions, ← Except.ok.inj reached]
      decide

end CommandLine

end AgentKit
