/-
# The switch that upgrades

The switch is explained as the same as the command of that name, and without empty texts
in the environment it is. But the command takes what the environment holds as it is: an
empty language is a request for one that is not known, which means English, and an empty
directory of definitions is refused. The switch drops empty texts, so it upgrades in the
recorded language and with the bundled definitions.

It is proved exactly when the two leave the same tree, exit code and report at one moment.
-/

import AgentKit.Proofs.CommandLine.Performance
import AgentKit.Proofs.Phrase.Filling
import Mathlib

namespace AgentKit

variable {options other : LoadOptions} {root : Path} {time : Timestamp} {tree : Files.Tree}

/-! ## What a renewal depends on -/

/-- Which language was chosen does not matter for a job, whose language is settled. -/
theorem Job.run_of_definitions (job : Job) (same : options.definitions = job.loading.definitions) :
    ({ job with loading := options } : Job).run root time tree = job.run root time tree := by
  have load : ({ job with loading := options } : Job).loading.loadRoster root =
      job.loading.loadRoster root := by
    funext locale shared tree
    simp only [LoadOptions.loadRoster, LoadOptions.request, LoadOptions.source, same]
  simp only [Job.run, Job.carryOut, load]
  rfl

/-- A renewal depends on the chosen language only through the language that follows from
it and the settings. -/
theorem Renewal.run_congr (definitions : options.definitions = other.definitions)
    (locale : ∀ settings, Settings.load tree root = .ok settings →
      options.localeWith settings = other.localeWith settings) :
    Renewal.run options root time tree = Renewal.run other root time tree := by
  unfold Renewal.run
  cases loaded : Settings.load tree root with
  | error failure => simp only [loadSettings, loaded]
  | ok settings =>
      have same := locale settings loaded
      have jobs (targets : List Target) : Renewal.job options settings targets =
          { Renewal.job other settings targets with loading := options } := by
        simp only [Renewal.job, same]
      simp only [loadSettings, loaded, same]
      cases Renewal.targets settings root tree with
      | nil => rfl
      | cons target others =>
          simp only [Renewal.runJob, jobs]
          rw [Job.run_of_definitions (Renewal.job other settings (target :: others)) definitions]
          rfl

namespace CommandLine

variable {environment : Environment} {given : Given} {switch : Switch} {switches : List Switch}

/-! ## What the environment adds -/

/-- What the environment adds for a switch. -/
def Environment.entries (environment : Environment) (switch : Switch) : Given :=
  (environment.text? switch).toList.map (switch, ·)

/-- Whether the environment holds an empty text for the path of a switch. -/
def Environment.lacksPath (environment : Environment) (switch : Switch) : Bool :=
  switch.isPath && environment.text? switch == some ""

theorem recordFrom_of_fresh (fresh : given.mentions switch = false) :
    given.recordFrom environment switch =
      if environment.lacksPath switch then .error (.refused (.emptyPath switch))
      else .ok (given ++ environment.entries switch) := by
  rw [Given.recordFrom, fresh, if_neg Bool.false_ne_true, Environment.lacksPath,
    Environment.entries]
  cases held : environment.text? switch with
  | none => simp
  | some text =>
      have known : switch ≠ .help ∧ switch ≠ .version := by
        constructor <;> rintro rfl <;> contradiction
      simp [Given.record, known, fresh]

theorem mentions_append_entries {other : Switch} (different : switch ≠ other) :
    Given.mentions (given ++ environment.entries switch) other = given.mentions other := by
  simp [Given.mentions, Environment.entries, different]

/-- What the environment holds for some switches is recorded in their order, up to the
first empty path. -/
theorem recordAllFrom_of_fresh (fresh : ∀ switch ∈ switches, given.mentions switch = false)
    (distinct : switches.Nodup) :
    given.recordAllFrom environment switches =
      match switches.find? environment.lacksPath with
      | some switch => .error (.refused (.emptyPath switch))
      | none => .ok (given ++ switches.flatMap environment.entries) := by
  induction switches generalizing given with
  | nil => simp [Given.recordAllFrom]
  | cons switch switches ih =>
      rw [Given.recordAllFrom, recordFrom_of_fresh (fresh switch List.mem_cons_self),
        List.find?_cons]
      cases environment.lacksPath switch with
      | true => rfl
      | false =>
          rw [List.nodup_cons] at distinct
          have later : ∀ other ∈ switches,
              Given.mentions (given ++ environment.entries switch) other = false := by
            intro other member
            have different : switch ≠ other := fun same => distinct.1 (same ▸ member)
            rw [mentions_append_entries different]
            exact fresh other (List.mem_cons_of_mem switch member)
          simp [ih later distinct.2]

theorem text?_append (first second : Given) (switch : Switch) :
    Given.text? (first ++ second) switch = (first.text? switch).or (second.text? switch) :=
  List.lookup_append

theorem text?_entries (environment : Environment) (switch other : Switch) :
    Given.text? (environment.entries switch) other =
      if other = switch then environment.text? switch else none := by
  rw [Environment.entries]
  cases environment.text? switch with
  | none => simp [Given.text?]
  | some text =>
      by_cases same : other = switch
      · simp [Given.text?, same]
      · simp [Given.text?, List.lookup_cons, beq_eq_false_iff_ne.mpr same, same]

/-! ## The two command lines -/

theorem ofWords_upgradeSwitch (environment : Environment) :
    Request.ofWords environment ["--upgrade"] =
      if environment.root = some "" then .refused none (.emptyPath .root)
      else .run ⟨environment.root, false, .upgrade environment.loadOptions⟩ := by
  have words : Progress.start.readWords (Switch.understoodBy none) ["--upgrade"] =
      .ok (⟨[(.upgrade, "")], none⟩, []) := by rfl
  have recorded := @recordFrom_of_fresh environment [(.upgrade, "")] .root rfl
  have root : Given.text? ([(.upgrade, "")] ++ environment.entries .root) .root =
      environment.root := by
    rw [text?_append, text?_entries]
    rfl
  simp only [Request.ofWords, words, requestWithout, Progress.settle, recorded, bind, Except.bind]
  by_cases pathless : environment.root = some ""
  · simp [Environment.lacksPath, Environment.text?, Switch.isPath, pathless, Stop.request]
  · simp only [Environment.lacksPath, Environment.text?, Switch.isPath, pathless, beq_iff_eq,
      Bool.true_and, if_false, root]
    rfl

theorem ofWords_upgrade (environment : Environment) :
    Request.ofWords environment ["upgrade"] =
      if environment.definitions = some "" then .refused (some .upgrade) (.emptyPath .definitions)
      else if environment.root = some "" then .refused (some .upgrade) (.emptyPath .root)
      else .run ⟨environment.root, false,
        .upgrade ⟨environment.locale, environment.definitions⟩⟩ := by
  have words : Progress.start.readWords (Switch.understoodBy none) ["upgrade"] =
      .ok (⟨[], none⟩, ["upgrade"]) := by rfl
  have verb : Verb.ofName? "upgrade" = some .upgrade := by decide
  have nothing : Progress.start.readWords (Switch.understoodBy (some .upgrade)) [] =
      .ok (⟨[], none⟩, []) := by rfl
  have recorded := @recordAllFrom_of_fresh environment [] (Switch.understoodBy (some .upgrade))
    (by simp [Given.mentions]) (by decide)
  have all : (Switch.understoodBy (some .upgrade)).flatMap environment.entries =
      environment.entries .locale ++ (environment.entries .definitions ++
        environment.entries .root) := by
    simp [Switch.understoodBy, Switch.loading, Switch.common, Environment.entries,
      Environment.text?]
  have before := @recordFrom_of_fresh environment [] .root rfl
  have lacking : (Switch.understoodBy (some .upgrade)).find? environment.lacksPath =
      if environment.definitions = some "" then some .definitions
      else if environment.root = some "" then some .root else none := by
    by_cases undefined : environment.definitions = some "" <;>
      by_cases pathless : environment.root = some "" <;>
      simp [Switch.understoodBy, Switch.loading, Switch.common, Environment.lacksPath,
        Switch.isPath, Environment.text?, undefined, pathless]
  simp only [Request.ofWords, words, verb, requestOf, readVerb, nothing, Progress.settle, recorded,
    bind, Except.bind, lacking, all, before]
  by_cases undefined : environment.definitions = some ""
  · simp [undefined, Stop.request]
  · by_cases pathless : environment.root = some ""
    · simp [undefined, pathless, Stop.request]
    · simp [undefined, pathless, Environment.lacksPath, Switch.isPath, Environment.text?,
        Given.complete, invocationOf, Given.command, Given.loadOptions, text?_append, text?_entries]
      exact ⟨rfl, rfl⟩

/-! ## What the reports show -/

/-- The letter with which the announcement of a renewal begins. -/
def initialOf : Locale → Char
  | .english => 'T'
  | .portuguese => 'F'
  | .spanish => 'H'

theorem head?_announcement (job : Job) :
    (Renewal.announcement job).toList.head? = some (initialOf job.locale) := by
  have wording : (Phrase.detected.wording job.locale).toList.head? =
      some (initialOf job.locale) := by
    cases job.locale <;> rfl
  exact Phrase.head?_render wording (by cases job.locale <;> decide) _

/-- A report begins with the first line that is announced. -/
theorem exists_report_eq_append {α : Type} (presentation : Presentation α) (line : String)
    (announced : List String) (result : Except Trouble α) :
    ∃ rest, (presentation.output false (line :: announced) result).report = line ++ rest := by
  have begins (lines : List String) :
      Output.textOf (line :: lines) = line ++ ("\n" ++ Output.textOf lines) := by
    rw [Output.textOf, List.map_cons, String.join_cons, String.append_assoc]
    rfl
  cases result with
  | error trouble => exact ⟨_, begins announced⟩
  | ok value => exact ⟨_, begins (announced ++ presentation.lines value)⟩

/-- Renewals in different languages show different reports. -/
theorem report_ne_of_localeWith_ne {settings : Option Settings}
    (loaded : Settings.load tree root = .ok settings)
    (different : options.localeWith settings ≠ other.localeWith settings) :
    (Presentation.renewal.ofRun false (Renewal.run options root time tree)).2.report ≠
      (Presentation.renewal.ofRun false (Renewal.run other root time tree)).2.report := by
  simp only [Renewal.run, loadSettings, loaded, Presentation.ofRun]
  cases Renewal.targets settings root tree with
  | nil =>
      have apart : ∀ locale locale' : Locale, locale ≠ locale' →
          Output.textOf [Phrase.nothingToUpgrade.wording locale] ≠
            Output.textOf [Phrase.nothingToUpgrade.wording locale'] := by
        intro locale locale'
        cases locale <;> cases locale' <;> decide
      exact apart _ _ different
  | cons target others =>
      obtain ⟨rest, begins⟩ := exists_report_eq_append Presentation.renewal
        (Renewal.announcement (Renewal.job options settings (target :: others)))
        ((Renewal.job options settings (target :: others)).run root time tree).announced
        (((Renewal.job options settings (target :: others)).run root time tree).result.map .renewed)
      obtain ⟨rest', begins'⟩ := exists_report_eq_append Presentation.renewal
        (Renewal.announcement (Renewal.job other settings (target :: others)))
        ((Renewal.job other settings (target :: others)).run root time tree).announced
        (((Renewal.job other settings (target :: others)).run root time tree).result.map .renewed)
      intro same
      have heads := congrArg (·.toList.head?) (begins.symm.trans (same.trans begins'))
      simp only [String.toList_append, List.head?_append, head?_announcement, Option.some_or,
        Option.some.injEq] at heads
      have injective : ∀ locale locale',
          initialOf locale = initialOf locale' → locale = locale' := by
        intro locale locale'
        cases locale <;> cases locale' <;> decide
      exact different (injective _ _ heads)

/-! ## When the switch is the command -/

/-- Two runs leave the same tree, the same exit code and the same report. -/
def Agree (first second : Files.Tree × Output) : Prop :=
  first.1 = second.1 ∧ first.2.exitCode = second.2.exitCode ∧ first.2.report = second.2.report

theorem run_upgradeSwitch (environment : Environment) (time : Timestamp) (tree : Files.Tree)
    (pathless : environment.root ≠ some "") :
    CommandLine.run environment ["--upgrade"] time tree =
      Presentation.renewal.ofRun false (Renewal.run environment.loadOptions
        (ProjectRoot.resolve tree environment.root) time tree) := by
  rw [CommandLine.run, ofWords_upgradeSwitch, if_neg pathless]
  rfl

theorem run_upgrade (environment : Environment) (time : Timestamp) (tree : Files.Tree)
    (pathless : environment.root ≠ some "") (undefined : environment.definitions ≠ some "") :
    CommandLine.run environment ["upgrade"] time tree =
      Presentation.renewal.ofRun false (Renewal.run ⟨environment.locale, environment.definitions⟩
        (ProjectRoot.resolve tree environment.root) time tree) := by
  rw [CommandLine.run, ofWords_upgrade, if_neg undefined, if_neg pathless]
  rfl

/-- The exit code two is for command lines that are refused. -/
theorem exitCode_ofRun_ne_two {α : Type} (presentation : Presentation α) (json : Bool)
    (run : Run α) : (presentation.ofRun json run).2.exitCode ≠ 2 := by
  simp only [Presentation.ofRun, Presentation.output]
  cases run.result <;> cases json <;> simp [Output.failure, Output.success]

theorem nonEmpty_of_ne {text : Option String} (filled : text ≠ some "") : nonEmpty text = text := by
  cases text with
  | none => rfl
  | some text => simp_all [nonEmpty, Option.filter]

/-- The switch takes an empty language for none, where the command takes it for English. -/
theorem localeWith_loadOptions_iff (environment : Environment) {settings : Option Settings} :
    environment.loadOptions.localeWith settings =
        (⟨environment.locale, environment.definitions⟩ : LoadOptions).localeWith settings ↔
      (environment.locale = some "" →
        ∀ recorded, settings = some recorded → recorded.resolvedLocale = .english) := by
  by_cases speechless : environment.locale = some ""
  · simp only [LoadOptions.localeWith, Environment.loadOptions, speechless, true_implies]
    cases settings with
    | none => exact iff_of_true rfl fun _ absent => by contradiction
    | some settings =>
        exact ⟨fun same recorded there => Option.some.inj there ▸ same,
          fun english => english settings rfl⟩
  · have kept : environment.loadOptions.locale = environment.locale := nonEmpty_of_ne speechless
    refine iff_of_true ?_ fun empty => absurd empty speechless
    simp only [LoadOptions.localeWith, kept]

/-- The switch leaves what the command leaves exactly if both are refused for an empty
root, or the environment holds no empty directory of definitions, and an empty language
only where English follows from the settings as well. -/
theorem agree_upgradeSwitch_iff (environment : Environment) (time : Timestamp)
    (tree : Files.Tree) :
    Agree (CommandLine.run environment ["--upgrade"] time tree)
        (CommandLine.run environment ["upgrade"] time tree) ↔
      environment.root = some "" ∨ environment.definitions ≠ some "" ∧
        (environment.locale = some "" → ∀ settings,
          Settings.load tree (ProjectRoot.resolve tree environment.root) = .ok (some settings) →
            settings.resolvedLocale = .english) := by
  by_cases pathless : environment.root = some ""
  · simp only [pathless, true_or, iff_true]
    rw [CommandLine.run, CommandLine.run, ofWords_upgradeSwitch, ofWords_upgrade, if_pos pathless,
      if_pos pathless]
    split <;> exact ⟨rfl, rfl, rfl⟩
  simp only [pathless, false_or]
  by_cases undefined : environment.definitions = some ""
  · have refused : (CommandLine.run environment ["upgrade"] time tree).2.exitCode = 2 := by
      rw [CommandLine.run, ofWords_upgrade, if_pos undefined]
      rfl
    simp only [undefined, ne_eq, not_true_eq_false, false_and, iff_false]
    rintro ⟨_, same, _⟩
    rw [refused, run_upgradeSwitch _ _ _ pathless] at same
    exact exitCode_ofRun_ne_two _ _ _ same
  rw [run_upgradeSwitch _ _ _ pathless, run_upgrade _ _ _ pathless undefined]
  have definitions : environment.loadOptions.definitions = environment.definitions :=
    nonEmpty_of_ne undefined
  constructor
  · rintro ⟨_, _, same⟩
    refine ⟨undefined, fun speechless settings loaded => ?_⟩
    by_contra foreign
    refine report_ne_of_localeWith_ne loaded (fun equal => foreign ?_) same
    exact (localeWith_loadOptions_iff environment).mp equal speechless settings rfl
  · rintro ⟨_, spoken⟩
    have locale (settings : Option Settings) (loaded : Settings.load tree
        (ProjectRoot.resolve tree environment.root) = .ok settings) :
        environment.loadOptions.localeWith settings =
          (⟨environment.locale, environment.definitions⟩ : LoadOptions).localeWith settings :=
      (localeWith_loadOptions_iff environment).mpr fun speechless recorded there =>
        spoken speechless recorded (there ▸ loaded)
    rw [Renewal.run_congr definitions locale]
    exact ⟨rfl, rfl, rfl⟩

/-! ## An empty language -/

/-- A project with a recorded language and without any target. -/
def spanishTree : Files.Tree where
  entries :=
    [([".sdd-toolkit"], .directory),
     ([".sdd-toolkit", "config.yaml"], .file (.text "locale: es\n"))]
  workingDirectory := []

/-- The environment with an empty language. -/
def speechless : Environment := ⟨none, some "", none⟩

theorem load_spanishTree :
    Settings.load spanishTree (ProjectRoot.resolve spanishTree none) =
      .ok (some { Settings.default with locale := "es" }) := by
  have parsed : Yaml.documentOf "locale: es\n" =
      .ok (some ⟨.mapping .none
        [(.scalar .none .plain "locale".toList, .scalar .none .plain "es".toList)], []⟩) := by cbv
  have read : Settings.ofText "locale: es\n" = .ok { Settings.default with locale := "es" } := by
    rw [Settings.ofText, parsed]
    rfl
  have root : ProjectRoot.resolve spanishTree none = "/" := by decide +kernel
  have there : spanishTree.isThere (Path.join "/" Settings.file) = true := by decide +kernel
  have text : spanishTree.readText (Path.join "/" Settings.file) = .ok "locale: es\n" := by
    decide +kernel
  simp only [Settings.load, root, there, if_true, text, read]

/-- A renewal of the project finds no target and says so. -/
theorem run_spanishTree (options : LoadOptions) (time : Timestamp) :
    Presentation.renewal.ofRun false
        (Renewal.run options (ProjectRoot.resolve spanishTree none) time spanishTree) =
      (spanishTree, .success [Phrase.nothingToUpgrade.wording
        (options.localeWith (some { Settings.default with locale := "es" }))]) := by
  have undetected : Target.detect spanishTree (ProjectRoot.resolve spanishTree none) = [] := by
    decide +kernel
  have targets : Renewal.targets (some { Settings.default with locale := "es" })
      (ProjectRoot.resolve spanishTree none) spanishTree = [] := undetected
  simp only [Renewal.run, loadSettings, load_spanishTree, targets]
  rfl

def newYear : Timestamp := ⟨⟨2024, 1, 1⟩, 0, 0, 0, 0⟩

/-- The command answers in English and the switch in the recorded language. -/
theorem not_agree_speechless :
    (CommandLine.run speechless ["upgrade"] newYear spanishTree).2 =
        .success [Phrase.nothingToUpgrade.english] ∧
      (CommandLine.run speechless ["--upgrade"] newYear spanishTree).2 =
        .success [Phrase.nothingToUpgrade.spanish] ∧
      ¬ Agree (CommandLine.run speechless ["--upgrade"] newYear spanishTree)
        (CommandLine.run speechless ["upgrade"] newYear spanishTree) := by
  have command : CommandLine.run speechless ["upgrade"] newYear spanishTree =
      (spanishTree, .success [Phrase.nothingToUpgrade.english]) :=
    (run_upgrade speechless newYear spanishTree (by decide) (by decide)).trans (run_spanishTree _ _)
  have switch : CommandLine.run speechless ["--upgrade"] newYear spanishTree =
      (spanishTree, .success [Phrase.nothingToUpgrade.spanish]) := by
    have spanish : Locale.resolve "es" = .spanish := by decide +kernel
    have renewed := (run_upgradeSwitch speechless newYear spanishTree (by decide)).trans
      (run_spanishTree _ _)
    have recorded : speechless.loadOptions.localeWith
        (some { Settings.default with locale := "es" }) = .spanish := spanish
    rw [recorded] at renewed
    exact renewed
  refine ⟨by rw [command], by rw [switch], ?_⟩
  rw [command, switch]
  rintro ⟨_, _, same⟩
  exact absurd same (by decide)

end CommandLine

end AgentKit
