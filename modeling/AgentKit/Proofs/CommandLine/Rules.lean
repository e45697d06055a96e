/-
# The rules of an installation from the command line

A command line that asks for an installation says which texts the rules of the user are
taken from, and which profile. Once the installation comes to load agents, every agent
that it loads has the language rule, the lines of these texts, the rules of the profile
and the rules that its own file declares, in this order and with nothing in between. An
installation that succeeds records the text of the user and the key of the profile, but
not the rules of the profile.
-/

import AgentKit.Proofs.Command.Rules
import AgentKit.Proofs.CommandLine.Performance
import Mathlib

namespace AgentKit.CommandLine

open Files (Tree)

variable {environment : Environment} {words : List String} {time : Timestamp} {before : Tree}
  {given : Option Path} {json : Bool} {choice : Choice}

/-- Every installation that comes to load agents composes their rules, and when it ends with
success it has recorded what the user has given. -/
theorem rules_of_install
    (asked : Request.ofWords environment words = .run ⟨given, json, .install choice⟩)
    (reached : (choice.run (ProjectRoot.resolve before given) time before).announced ≠ []) :
    ∃ settings file added,
      choice.Composes (ProjectRoot.resolve before given) time before settings file added ∧
      (CommandLine.run environment words time before).1 =
        (choice.run (ProjectRoot.resolve before given) time before).tree ∧
      ((CommandLine.run environment words time before).2.exitCode = 0 ↔
        ∃ installed,
          (choice.run (ProjectRoot.resolve before given) time before).result = .ok installed) := by
  obtain ⟨settings, file, added, composes⟩ := Choice.composes_of_announced reached
  exact ⟨settings, file, added, composes, run_of_install asked⟩

/-! ## An installation with rules from everywhere -/

/-- The text of a definition with one rule. -/
def ruledText : String :=
  "\x7bname: A, role: B, systemPrompt: abcdefghij, rules: [d]\x7d"

/-- A tree with one definition and a file of rules. -/
def ruledTree : Tree where
  entries :=
    [(["d"], .directory), (["d", "x.yaml"], .file (.text ruledText)),
     (["r"], .file (.text "\nc"))]
  workingDirectory := []

def ruledWords : List String :=
  ["--root", "a", "install", "--tool", "web", "--rules", " a \r\n\nb", "--rules-file", "r",
    "--profile", "infra-terraform", "--definitions", "d"]

def ruledChoice : Choice where
  tools := ["web"]
  rules := some " a \r\n\nb"
  rulesFile := some "r"
  profile := some "infra-terraform"
  loading := ⟨none, some "d"⟩

def ruledEnvironment : Environment := ⟨none, none, none⟩

def ruledTime : Timestamp := ⟨⟨2024, 1, 1⟩, 0, 0, 0, 0⟩

def ruledDefinition : Definition where
  name := "A"
  role := "B"
  emoji := Definition.defaultEmoji
  systemPrompt := "abcdefghij"
  rules := ["d"]
  tools := []
  description := none

def ruledValue : Yaml.Value :=
  .mapping [(.string "name", .string "A"), (.string "role", .string "B"),
    (.string "systemPrompt", .string "abcdefghij"), (.string "rules", .sequence [.string "d"])]

theorem ofText_ruled :
    Yaml.Value.ofText ruledText = .ok ruledValue ∧
      Definition.ofValue ruledValue = .ok ruledDefinition := by
  constructor
  · cbv
  · rfl

/-- The job of the choice, whose rules are the text with the file below it. -/
def ruledJob : Job where
  targets := [.web]
  rules := some (" a \r\n\nb" ++ "\n" ++ "\nc")
  profile := some "infra-terraform"
  locale := .english
  loading := ⟨none, some "d"⟩

theorem settings_ruled : Settings.load ruledTree "a" = .ok none := by
  decide +kernel

theorem job_ruled : ruledChoice.job "a" ruledTree = .ok ruledJob :=
  Choice.job_eq_ok_iff.mpr ⟨[.web], none, some "\nc", rfl, settings_ruled, rfl, rfl⟩

/-- The definition is loaded, with whatever rules. -/
theorem load_ruled (shared : Option String) :
    ∃ agent, (ruledJob.loading.request "a" .english shared).load ruledTree =
      .ok [("x.yaml", .loaded agent)] := by
  have unsorted : (ruledJob.loading.request "a" .english shared).unsortedFiles ruledTree =
      .ok ["x.yaml"] := by rfl
  have listed : (ruledJob.loading.request "a" .english shared).files ruledTree =
      .ok ["x.yaml"] := by
    rw [LoadRequest.files, unsorted, Except.map, List.mergeSort_singleton]
  have read : (ruledJob.loading.request "a" .english shared).readDefinition ruledTree "x.yaml" =
      .ok (ruledText, .default) := by rfl
  rw [LoadRequest.load_of_files listed, Roster.ofFiles, List.map_cons, List.map_nil,
    LoadRequest.agentOf, read]
  simp only [LoadRequest.compose, ofText_ruled]
  exact ⟨_, rfl⟩

/-- The agent has the lines of the text, that of the file, the rules of the profile and its
own. -/
theorem rules_of_ruled :
    ∃ agent, ruledChoice.Loads "a" ruledTree [("x.yaml", .loaded agent)] ∧
      agent.rules =
        ["Always reply in English unless told otherwise.", "a", "b", "c",
          "Use modules for reusable resources.", "Keep state remote and locked.",
          "Format code with `terraform fmt`.", "Avoid hardcoding values; use variables.",
          "d"] := by
  have asked : Request.ofWords ruledEnvironment ruledWords =
      .run ⟨some "a", false, .install ruledChoice⟩ := by decide
  obtain ⟨shared, known⟩ : ∃ shared,
      sharedRules ruledJob.rules ruledJob.profile = .ok shared := ⟨_, rfl⟩
  have reached : (ruledChoice.run "a" ruledTime ruledTree).announced ≠ [] :=
    Choice.announced_ne_nil_iff.mpr ⟨ruledJob, shared, job_ruled, known⟩
  obtain ⟨agent, loaded⟩ := load_ruled shared
  have loads : ruledChoice.Loads "a" ruledTree [("x.yaml", .loaded agent)] :=
    ⟨ruledJob, shared, job_ruled, known, LoadOptions.loadRoster_eq_ok_iff.mpr loaded⟩
  obtain ⟨settings, file, added, composes, _⟩ := rules_of_install asked reached
  obtain rfl : settings = none := Except.ok.inj (composes.loaded.symm.trans settings_ruled)
  obtain rfl : file = some "\nc" := (Except.ok.inj composes.read).symm
  obtain ⟨definition, ⟨text, source, value, read, parsed, valid⟩, rules⟩ :=
    composes.agents _ loads "x.yaml" agent List.mem_cons_self
  obtain ⟨rfl, rfl⟩ : text = ruledText ∧ source = .default := by
    cases read
    exact ⟨rfl, rfl⟩
  obtain rfl : value = ruledValue := Except.ok.inj (parsed.symm.trans ofText_ruled.1)
  obtain rfl : definition = ruledDefinition := Except.ok.inj (valid.symm.trans ofText_ruled.2)
  have lines : (ruledChoice.sources (some "\nc") none).lines = ["a", "b", "c"] := by decide
  refine ⟨agent, loads, ?_⟩
  rw [rules, lines, ← Option.some.inj composes.profile]
  rfl

end AgentKit.CommandLine
