/-
# What a command line records

An installation that succeeds, and an upgrade that succeeds for some targets, leave settings
that nothing is to be warned of, and that say what was done: for which targets, in which
language and with which profile. An upgrade without choices keeps what the user has chosen: the
version, the rules and the profile are as they were, and so is the language, by its key.

With the tools it is different. They are recorded as the keys of the targets that were
installed. A tool that names no target is warned of as one that is skipped, but when the upgrade
is recorded it is gone, and so is the warning.
-/

import AgentKit.Proofs.Command.Recording
import AgentKit.Proofs.CommandLine.Root

namespace AgentKit

open Files (Tree)
open CommandLine (Environment Presentation Request run_of_asked)

variable {environment : Environment} {words : List String} {given definitions : Option Path}
  {json : Bool} {command : Command} {root : Path} {time : Timestamp} {before tree : Tree}
  {old : Settings}

namespace Command

/-- A command that installs: an installation, or a renewal for some targets. -/
def Installs (root : Path) (tree : Tree) : Command → Prop
  | .install _ => True
  | .upgrade _ => ∃ settings, Settings.load tree root = .ok settings ∧
      Renewal.targets settings root tree ≠ []
  | .list _ | .targets | .profiles | .view => False

end Command

namespace CommandLine

/-- An upgrade without choices, for targets that the settings name, keeps the settings but for
their tools, the spelling of the language and the marks of the installation. The tools are kept
exactly if all of them are keys of targets; those that are warned about are not. -/
theorem settings_of_upgrade
    (asked : Request.ofWords environment words =
      .run ⟨given, json, .upgrade ⟨none, definitions⟩⟩)
    (loaded : Settings.load before (ProjectRoot.resolve before given) = .ok (some old))
    (known : old.targets ≠ [])
    (done : (CommandLine.run environment words time before).2.exitCode = 0) :
    ∃ saved, saved =
        { old with
          tools := old.targets.map Target.key
          locale := old.resolvedLocale.key
          toolkitVersion := some toolkitVersion
          lastInstall := some time } ∧
      (CommandLine.run environment words time before).1.readText
          ((ProjectRoot.resolve before given).join Settings.file) = .ok saved.toText ∧
      (saved.ReadsBack → Settings.load (CommandLine.run environment words time before).1
        (ProjectRoot.resolve before given) = .ok (some saved)) ∧
      (saved.tools = old.tools ↔ ∀ tool ∈ old.tools, ∃ target : Target, tool = target.key) ∧
      ∀ tool, .unknownTool tool ∈ old.warnings → tool ∈ old.tools ∧ tool ∉ saved.tools := by
  have recorded : Renewal.targets (some old) (ProjectRoot.resolve before given) before =
      old.targets := by
    rcases Renewal.targets_eq (some old) (ProjectRoot.resolve before given) before with
      ⟨_, same, _, listed⟩ | ⟨unknown, _⟩
    · rw [listed, Option.some.inj same]
    · exact absurd (unknown old rfl) known
  have steady := Renewal.steady_of_targets loaded (recorded ▸ known)
  have made : (Command.upgrade ⟨none, definitions⟩).job? (ProjectRoot.resolve before given)
      before = some (Renewal.job ⟨none, definitions⟩ (some old) old.targets) :=
    Command.job?_upgrade_iff.mpr ⟨some old, loaded, recorded ▸ known, by rw [recorded]⟩
  have ran : CommandLine.perform (.upgrade ⟨none, definitions⟩) json
      (ProjectRoot.resolve before given) time before = _ := Command.perform_of_job? made
  rw [(run_of_asked asked).trans ran] at done ⊢
  obtain ⟨installed, ended⟩ := Command.exists_installed done
  obtain ⟨settings, underlie, held⟩ := Job.stamp_of_run ended
  obtain rfl : settings = some old := Except.ok.inj ((underlie.steady steady).symm.trans loaded)
  rw [Option.getD_some, Renewal.stamp_job] at held
  exact ⟨old.renewed time, rfl, held,
    fun reads => Settings.load_eq_ok_some_iff.mpr ⟨_, held, reads⟩,
    Settings.map_key_targets_eq_iff, fun _ => Settings.notMem_tools_renewed⟩

/-! ## Settings with a foreign tool -/

/-- The text of settings with a tool that names no target, and with a spelled language. -/
def foreignText : String :=
  "version: 7\nlocale: EN-us\ntools: [emacs, web]\nprofile: generic\n"

def foreignSettings : Settings :=
  { Settings.default with
    version := 7, locale := "EN-us", tools := ["emacs", "web"], profile := some "generic" }

/-- A project with these settings and one definition, in which no bundled definition can be
read. -/
def foreignTree : Tree where
  entries :=
    [(["d"], .directory), (["d", "x.yaml"], .file (.text Target.twinText)),
     ([".sdd-toolkit"], .directory),
     ([".sdd-toolkit", "config.yaml"], .file (.text foreignText)),
     ([".sdd-toolkit", "agents"], .directory)] ++
    Definition.bundled.map fun definition =>
      ([".sdd-toolkit", "agents", definition.name], .file (.binary ⟨#[255]⟩))
  workingDirectory := []

/-- The job of an upgrade of the project. -/
def foreignJob (definitions : Option Path) : Job where
  targets := [.web]
  rules := none
  profile := some "generic"
  locale := .english
  loading := ⟨none, definitions⟩

/-- The settings that such an upgrade keeps. -/
def foreignSaved : Settings :=
  { foreignSettings with
    tools := ["web"]
    locale := "en"
    toolkitVersion := some toolkitVersion
    lastInstall := some sampleTime }

theorem load_foreign {tree : Tree}
    (read : tree.readText (Path.join "/" Settings.file) = .ok foreignText) :
    Settings.load tree "/" = .ok (some foreignSettings) := by
  have parsed : Yaml.documentOf foreignText =
      .ok (some ⟨.mapping .none
        [(.scalar .none .plain "version".toList, .scalar .none .plain "7".toList),
         (.scalar .none .plain "locale".toList, .scalar .none .plain "EN-us".toList),
         (.scalar .none .plain "tools".toList,
           .sequence .none [.scalar .none .plain "emacs".toList,
             .scalar .none .plain "web".toList]),
         (.scalar .none .plain "profile".toList, .scalar .none .plain "generic".toList)],
        []⟩) := by cbv
  refine Settings.load_eq_ok_some_iff.mpr ⟨_, read, ?_⟩
  rw [Settings.ofText, parsed]
  rfl

theorem delivered_foreign :
    ProjectRoot.resolve foreignTree none = "/" ∧
      foreignTree.readText (Path.join "/" Settings.file) = .ok foreignText ∧
      (deliver "/" [foreignSaved.artifact] foreignTree).2 = .ok [⟨Settings.file, true⟩] ∧
      (deliver "/" [prompt] foreignTree).2 = .ok [⟨"prompts/x.txt", false⟩] ∧
      (deliver "/" [prompt] foreignTree).1.readText (Path.join "/" Settings.file) =
        .ok foreignText ∧
      (deliver "/" [foreignSaved.artifact] (deliver "/" [prompt] foreignTree).1).2 =
        .ok [⟨Settings.file, true⟩] := by
  decide +kernel

/-- Every bundled definition is overridden by a file that is no text, so no agent is loaded. -/
theorem load_foreign_bundled :
    ∃ roster, ((foreignJob none).loading.request "/" .english none).load foreignTree =
        .ok roster ∧ roster.agents = [] := by
  let request := (foreignJob none).loading.request "/" .english none
  have unreadable : ∀ file ∈ Definition.bundled.map (·.name),
      request.readDefinition foreignTree file = .error .notText := by decide +kernel
  rcases request.files_spec foreignTree with ⟨names, listed, _⟩ | ⟨path, directory, _⟩
  · have loaded := LoadRequest.load_of_files listed
    refine ⟨_, loaded, List.eq_nil_iff_forall_not_mem.mpr fun agent member => ?_⟩
    obtain ⟨file, inside⟩ := Roster.mem_agents_iff.mp member
    obtain ⟨⟨_, known⟩, yields⟩ := LoadRequest.of_mem_load loaded inside
    obtain ⟨_, _, _, _, read, _⟩ := LoadRequest.agentOf_eq_ok_iff.mp yields
    rw [unreadable file known] at read
    contradiction
  · contradiction

/-- The upgrade with the bundled definitions finds no agent, and is recorded nevertheless. -/
theorem run_foreign_bundled :
    ∃ roster, (foreignJob none).run "/" sampleTime foreignTree =
      { tree := (deliver "/" [foreignSaved.artifact] foreignTree).1
        announced := [Phrase.loading.wording .english]
        result := .ok ⟨.english, roster, [(.web, [])]⟩ } := by
  obtain ⟨_, read, kept, _⟩ := delivered_foreign
  obtain ⟨roster, loaded, no_agent⟩ := load_foreign_bundled
  refine ⟨roster, Job.run_of_steps rfl loaded ?_ (load_foreign read) (Prod.ext rfl kept)⟩
  rw [no_agent]
  exact installAll_nil _ _ _ _

theorem targets_foreign : foreignSettings.targets = [.web] := by
  decide +kernel

/-- An upgrade of the project without other choices runs its job. -/
theorem run_foreign {words : List String} {definitions : Option Path}
    (asked : Request.ofWords sampleEnvironment words =
      .run ⟨none, false, .upgrade ⟨none, definitions⟩⟩) :
    CommandLine.run sampleEnvironment words sampleTime foreignTree =
      (((foreignJob definitions).run "/" sampleTime foreignTree).tree,
        (Command.upgrade ⟨none, definitions⟩).shown false (foreignJob definitions)
          ((foreignJob definitions).run "/" sampleTime foreignTree)) := by
  obtain ⟨root, read, _⟩ := delivered_foreign
  have recorded : Renewal.targets (some foreignSettings) "/" foreignTree = [.web] := by
    decide +kernel
  have made : (Command.upgrade ⟨none, definitions⟩).job? "/" foreignTree =
      some (foreignJob definitions) :=
    Command.job?_upgrade_iff.mpr
      ⟨_, load_foreign read, by simp [recorded], by rw [recorded]; rfl⟩
  have performed : CommandLine.perform (.upgrade ⟨none, definitions⟩) false "/" sampleTime
      foreignTree = _ := Command.perform_of_job? made
  rw [← root] at performed ⊢
  exact (run_of_asked asked).trans performed

/-- The upgrade without switches ends with success and keeps these settings. -/
theorem left_foreign :
    Request.ofWords sampleEnvironment ["upgrade"] = .run ⟨none, false, .upgrade ⟨none, none⟩⟩ ∧
      (CommandLine.run sampleEnvironment ["upgrade"] sampleTime foreignTree).2.exitCode = 0 ∧
      (CommandLine.run sampleEnvironment ["upgrade"] sampleTime foreignTree).1.readText
        (Path.join "/" Settings.file) = .ok foreignSaved.toText := by
  have asked : Request.ofWords sampleEnvironment ["upgrade"] =
      .run ⟨none, false, .upgrade ⟨none, none⟩⟩ := by decide
  obtain ⟨_, _, kept, _⟩ := delivered_foreign
  obtain ⟨roster, ran⟩ := run_foreign_bundled
  rw [run_foreign asked, ran]
  exact ⟨asked, rfl, Settings.readText_of_deliver (Prod.ext rfl kept)⟩

/-- What the upgrade without switches keeps of the settings, and what it does not. -/
theorem settings_foreign :
    ∃ saved, saved = foreignSaved ∧
      (CommandLine.run sampleEnvironment ["upgrade"] sampleTime foreignTree).1.readText
        (Path.join "/" Settings.file) = .ok saved.toText ∧
      ¬ saved.tools = foreignSettings.tools ∧
      "emacs" ∈ foreignSettings.tools ∧ "emacs" ∉ saved.tools := by
  obtain ⟨asked, done, _⟩ := left_foreign
  obtain ⟨root, read, _⟩ := delivered_foreign
  have loaded : Settings.load foreignTree (ProjectRoot.resolve foreignTree none) = _ :=
    root.symm ▸ load_foreign read
  obtain ⟨saved, whole, held, _, kept, lost⟩ :=
    settings_of_upgrade asked loaded (by simp [targets_foreign]) done
  obtain ⟨recorded, gone⟩ := lost "emacs" (by decide +kernel)
  refine ⟨saved, whole.trans (by decide +kernel), root ▸ held, fun same => ?_, recorded, gone⟩
  rw [same] at gone
  exact gone recorded

/-- An upgrade without switches takes a tool out of the settings that it was said to skip. -/
theorem forgets_foreignTree :
    Request.ofWords ⟨none, none, none⟩ ["upgrade"] =
        .run ⟨none, false, .upgrade ⟨none, none⟩⟩ ∧
      ProjectRoot.resolve foreignTree none = "/" ∧
      Settings.load foreignTree "/" = .ok (some foreignSettings) ∧
      foreignSettings.targets = [.web] ∧ foreignSettings.tools = ["emacs", "web"] ∧
      .unknownTool "emacs" ∈ foreignSettings.warnings ∧
      (Settings.Warning.unknownTool "emacs").message =
        "unknown tool 'emacs' in tools (it will be skipped)" ∧
      (CommandLine.run ⟨none, none, none⟩ ["upgrade"] sampleTime foreignTree).2.exitCode = 0 ∧
      (CommandLine.run ⟨none, none, none⟩ ["upgrade"] sampleTime foreignTree).1.readText
        (Path.join "/" Settings.file) = .ok foreignSaved.toText ∧
      foreignSaved.tools = ["web"] := by
  obtain ⟨asked, done, held⟩ := left_foreign
  obtain ⟨root, read, _⟩ := delivered_foreign
  exact ⟨asked, root, load_foreign read, targets_foreign, rfl, by decide +kernel, by decide, done,
    held, rfl⟩

/-! ## Settings that are hidden at first -/

end CommandLine

end AgentKit
