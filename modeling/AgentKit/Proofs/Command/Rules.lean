/-
# The rules of an installation

The rules that agents share come from the user and from a profile. The user gives them as
a text, as a file or as both; otherwise the settings tell what was given before. On their
way to the agents these texts are cut into lines and joined again several times, and no
line is lost, changed or moved by that. The settings keep the text of the user alone.
-/

import AgentKit.Command.Choice
import AgentKit.Proofs.Command.Job
import AgentKit.Proofs.RuleText.Joining

namespace AgentKit

open Files (Tree)

/-! ## Where rules come from -/

/-- The texts from which an installation can take the rules of the user. -/
structure RuleSources where
  /-- The text that is given. -/
  text : Option String
  /-- The text of the file that is given. -/
  file : Option String
  /-- The text in the settings. -/
  recorded : Option String

namespace RuleSources

/-- The trimmed lines of the text and then those of the file, without blank ones. The text in
the settings counts if neither is given. -/
def lines (sources : RuleSources) : List String :=
  if sources.text.isSome || sources.file.isSome then
    sources.text.elim [] RuleText.trimmedLines ++ sources.file.elim [] RuleText.trimmedLines
  else sources.recorded.elim [] RuleText.trimmedLines

/-- The text of the user, in which the file begins on a new line. -/
def userText (sources : RuleSources) : Option String :=
  match sources.text, sources.file with
  | some text, some file => some (text ++ "\n" ++ file)
  | some text, none => some text
  | none, some file => some file
  | none, none => sources.recorded

theorem rulesOf_userText (sources : RuleSources) :
    RuleText.rulesOf sources.userText = sources.lines := by
  obtain ⟨text, file, recorded⟩ := sources
  -- A file below a text is the one case in which two texts meet.
  cases text with
  | none =>
      cases file with
      | none =>
          cases recorded with
          | none => rfl
          | some recorded => exact RuleText.rules_eq_trimmedLines recorded
      | some file => exact RuleText.rules_eq_trimmedLines file
  | some text =>
      cases file with
      | none =>
          show RuleText.rules text = RuleText.trimmedLines text ++ []
          rw [RuleText.rules_eq_trimmedLines, List.append_nil]
      | some file =>
          show RuleText.rules (text ++ "\n" ++ file) =
            RuleText.trimmedLines text ++ RuleText.trimmedLines file
          rw [RuleText.rules_append, RuleText.rules_eq_trimmedLines,
            RuleText.rules_eq_trimmedLines]

end RuleSources

namespace StackProfile

/-- The rules that the key of a profile stands for, and none where there is no key. An unknown
key stands for nothing. -/
def rulesOf? : Option String → Option (List String)
  | none => some []
  | some key => (find? key).map (·.rules)

theorem isRule_of_mem_all : ∀ profile ∈ all, ∀ rule ∈ profile.rules, RuleText.IsRule rule := by
  simp only [all, List.forall_mem_cons, List.not_mem_nil, IsEmpty.forall_iff, implies_true,
    and_true, true_and]
  and_intros
  all_goals
    apply RuleText.isRule_ofList
    decide

theorem rules_rulesText {key : String} {profile : StackProfile} (found : find? key = some profile) :
    RuleText.rules profile.rulesText = profile.rules :=
  RuleText.rules_intercalate (isRule_of_mem_all profile (List.mem_of_find?_eq_some found))

end StackProfile

/-- The rules that agents share are those of the user and then those of the profile. -/
theorem rulesOf_sharedRules {rules profile shared : Option String}
    (found : sharedRules rules profile = .ok shared) :
    ∃ added, StackProfile.rulesOf? profile = some added ∧
      RuleText.rulesOf shared = RuleText.rulesOf rules ++ added := by
  have user : rules.toList.flatMap RuleText.rules = RuleText.rulesOf rules := by
    cases rules with
    | none => rfl
    | some text => exact List.flatMap_singleton _ text
  unfold sharedRules at found
  cases profile with
  | none =>
      refine ⟨[], rfl, ?_⟩
      rw [← Except.ok.inj found, RuleText.rulesOf_join, user, List.append_nil]
  | some key =>
      cases known : StackProfile.find? key with
      | none =>
          simp only [known] at found
          contradiction
      | some profile =>
          simp only [known] at found
          refine ⟨profile.rules, by rw [StackProfile.rulesOf?, known]; rfl, ?_⟩
          rw [← Except.ok.inj found, RuleText.rulesOf_join, List.flatMap_append, user,
            List.flatMap_singleton, StackProfile.rules_rulesText known]

/-! ## The rules of a loaded agent -/

/-- The file of a name is read, and what it says is a definition. -/
def LoadRequest.Defines (request : LoadRequest) (tree : Tree) (file : String)
    (definition : Definition) : Prop :=
  ∃ text source value, request.readDefinition tree file = .ok (text, source) ∧
    Yaml.Value.ofText text = .ok value ∧ Definition.ofValue value = .ok definition

/-- The rules of a loaded agent are composed from those that its file declares. -/
theorem LoadRequest.rules_of_load {request : LoadRequest} {tree : Tree} {roster : Roster}
    {file : String} {agent : Agent} (loaded : request.load tree = .ok roster)
    (member : (file, .loaded agent) ∈ roster) :
    ∃ definition, request.Defines tree file definition ∧
      agent.rules =
        RuleText.compose definition.rules request.locale.languageRule request.globalRules := by
  obtain ⟨text, source, value, definition, read, parsed, valid, rfl⟩ :=
    agentOf_eq_ok_iff.mp (of_mem_load loaded member).2
  exact ⟨definition, ⟨text, source, value, read, parsed, valid⟩, rfl⟩

/-! ## What an installation makes of them -/

namespace Choice

variable {choice : Choice} {root : Path} {time : Timestamp} {tree : Tree} {job : Job}
  {rules : Option String} {roster : Roster}

/-- The text of the chosen file, if one is chosen. -/
def fileText (choice : Choice) (tree : Tree) : Except Files.Fault (Option String) :=
  match choice.rulesFile with
  | none => .ok none
  | some path => (tree.readText path).map some

/-- The sources of a choice, given the text of its file and the settings. -/
def sources (choice : Choice) (file : Option String) (settings : Option Settings) : RuleSources where
  text := choice.rules
  file := file
  recorded := settings.bind (·.globalRules)

/-- The chosen rules, or else those of the settings, are the text of the user. -/
theorem chosenRules_or_iff {settings : Option Settings} :
    (∃ chosen, choice.chosenRules tree = .ok chosen ∧
        rules = chosen.or (settings.bind (·.globalRules))) ↔
      ∃ file, choice.fileText tree = .ok file ∧
        rules = (choice.sources file settings).userText := by
  unfold chosenRules fileText sources RuleSources.userText onNewLine
  cases choice.rulesFile with
  | none => cases choice.rules <;> simp
  | some path =>
      cases read : tree.readText path with
      | error fault => simp [read, Except.map]
      | ok text => cases choice.rules <;> simp [read, Except.map]

/-- A choice makes a job if its tools are known and its file and the settings can be read. -/
theorem job_eq_ok_iff :
    choice.job root tree = .ok job ↔
      ∃ targets settings file, targetsOf choice.tools = .ok targets ∧
        Settings.load tree root = .ok settings ∧ choice.fileText tree = .ok file ∧
        job =
          { targets := targets
            rules := (choice.sources file settings).userText
            profile := choice.profile.or (settings.bind (·.profile))
            locale := choice.loading.localeWith settings
            loading := choice.loading } := by
  unfold Choice.job
  cases targetsOf choice.tools with
  | error failure => simp
  | ok targets =>
      simp only [Tree.bind_eq_ok_iff, loadSettings_eq_ok_iff, Except.ok.injEq]
      constructor
      · rintro ⟨settings, loaded, chosen, given, rfl⟩
        obtain ⟨file, read, same⟩ := chosenRules_or_iff.mp ⟨chosen, given, rfl⟩
        exact ⟨targets, settings, file, rfl, loaded, read, by rw [same]⟩
      · rintro ⟨_, settings, file, rfl, loaded, read, rfl⟩
        obtain ⟨chosen, given, same⟩ := chosenRules_or_iff.mpr ⟨file, read, rfl⟩
        exact ⟨settings, loaded, chosen, given, by rw [same]⟩

/-- The run of a choice announces that it loads agents if the choice makes a job whose profile
is known. -/
theorem announced_ne_nil_iff :
    (choice.run root time tree).announced ≠ [] ↔
      ∃ job shared, choice.job root tree = .ok job ∧
        sharedRules job.rules job.profile = .ok shared := by
  unfold run
  cases made : choice.job root tree with
  | error trouble => simp [Run.refused]
  | ok job =>
      unfold Job.run
      cases shared : sharedRules job.rules job.profile with
      | error failure => simp [shared, Run.refused]
      | ok shared => simp [shared]

/-- The run of a choice loads a roster. -/
def Loads (choice : Choice) (root : Path) (tree : Tree) (roster : Roster) : Prop :=
  ∃ job shared, choice.job root tree = .ok job ∧ sharedRules job.rules job.profile = .ok shared ∧
    job.loading.loadRoster root job.locale shared tree = .ok roster

/-- What the run of a choice makes of rules, given the settings, the text of the chosen file
and the rules that the profile adds. -/
structure Composes (choice : Choice) (root : Path) (time : Timestamp) (tree : Tree)
    (settings : Option Settings) (file : Option String) (added : List String) : Prop where
  loaded : Settings.load tree root = .ok settings
  read : choice.fileText tree = .ok file
  profile : StackProfile.rulesOf? (choice.profile.or (settings.bind (·.profile))) = some added
  /-- An agent has the language rule, the lines of the user, the rules of the profile and the
  rules that its file declares. -/
  agents : ∀ roster, choice.Loads root tree roster → ∀ name agent, (name, .loaded agent) ∈ roster →
    ∃ definition, (choice.loading.request root (choice.loading.localeWith settings) none).Defines
        tree name definition ∧
      agent.rules = (choice.loading.localeWith settings).languageRule ::
        ((choice.sources file settings).lines ++ added ++ definition.rules)
  /-- A run that succeeds keeps the text of the user, which has the lines of the user and no
  others, and the key of the profile. -/
  recorded : ∀ installed, (choice.run root time tree).result = .ok installed →
    choice.Loads root tree installed.roster ∧ ∃ saved : Settings,
      (choice.run root time tree).tree.readText (root.join Settings.file) = .ok saved.toText ∧
      saved.globalRules = (choice.sources file settings).userText ∧
      RuleText.rulesOf saved.globalRules = (choice.sources file settings).lines ∧
      saved.profile = choice.profile.or (settings.bind (·.profile))

/-- The rules of an agent that a run loads come from the shared rules of its job. -/
theorem rules_of_loads {shared : Option String} (made : choice.job root tree = .ok job)
    (known : sharedRules job.rules job.profile = .ok shared)
    (loads : choice.Loads root tree roster) {name : String} {agent : Agent}
    (member : (name, .loaded agent) ∈ roster) :
    ∃ definition, (job.loading.request root job.locale none).Defines tree name definition ∧
      agent.rules = job.locale.languageRule :: (RuleText.rulesOf shared ++ definition.rules) := by
  obtain ⟨job', shared', made', known', found⟩ := loads
  obtain rfl : job = job' := by
    rw [made] at made'
    exact Except.ok.inj made'
  obtain rfl : shared = shared' := by
    rw [known] at known'
    exact Except.ok.inj known'
  exact LoadRequest.rules_of_load (LoadOptions.loadRoster_eq_ok_iff.mp found) member

/-- A run that succeeds has loaded its agents, and records the rules and the profile of its
job. -/
theorem recorded_of_run {installed : Installed} (made : choice.job root tree = .ok job)
    (done : (choice.run root time tree).result = .ok installed) :
    choice.Loads root tree installed.roster ∧ ∃ saved : Settings,
      (choice.run root time tree).tree.readText (root.join Settings.file) = .ok saved.toText ∧
      saved.globalRules = job.rules ∧ saved.profile = job.profile := by
  have ran : choice.run root time tree = job.run root time tree := by rw [run, made]
  rw [ran] at done ⊢
  obtain ⟨shared, roster, _, _, old, _, known, found, _, _, kept, rfl⟩ := Job.steps_of_run done
  exact ⟨⟨job, shared, made, known, LoadOptions.loadRoster_eq_ok_iff.mpr found⟩,
    job.stamp (old.getD .default) time, Settings.readText_of_deliver kept, rfl, rfl⟩

/-- A run that comes to load agents composes their rules. -/
theorem composes_of_announced (reached : (choice.run root time tree).announced ≠ []) :
    ∃ settings file added, choice.Composes root time tree settings file added := by
  obtain ⟨job, shared, made, known⟩ := announced_ne_nil_iff.mp reached
  obtain ⟨targets, settings, file, _, loaded, read, whole⟩ := job_eq_ok_iff.mp made
  obtain ⟨added, profile, rules⟩ := rulesOf_sharedRules known
  have lines : RuleText.rulesOf job.rules = (choice.sources file settings).lines := by
    rw [whole, RuleSources.rulesOf_userText]
  refine ⟨settings, file, added, ?_⟩
  constructor
  case loaded => exact loaded
  case read => exact read
  case profile => rwa [whole] at profile
  case agents =>
    intro roster loads name agent member
    have composed := rules_of_loads made known loads member
    rw [rules, lines] at composed
    rwa [whole] at composed
  case recorded =>
    intro installed done
    obtain ⟨loads, saved, held, user, key⟩ := recorded_of_run made done
    rw [← user] at lines
    exact ⟨loads, saved, held, by rw [user, whole], lines, by rw [key, whole]⟩

end Choice

end AgentKit
