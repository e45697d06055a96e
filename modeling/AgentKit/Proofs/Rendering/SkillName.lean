/-
# Names in frontmatter

A skill and a subagent of Claude Code give their name in their frontmatter, and the name of
their directory or file is the same. The name is written as it is, without regard to what it
means there: a name that means a number, a truth value or null is no text to a reader, and an
agent may have no name at all.
-/

import AgentKit.Proofs.Agent.Identifier
import AgentKit.Proofs.Document.Frontmatter
import AgentKit.Proofs.Plan.Paths
import AgentKit.Proofs.Roster.Loading
import AgentKit.Proofs.Yaml.FrontmatterScalar

namespace AgentKit

open Yaml (Field IsKey IsPlain Written)

variable {agent : Agent} {slug text : String} {c : Char}

/-! ## Skill names as scalars -/

/-- What a skill name consists of has no meaning of its own on a line. -/
theorem isInline_of_isSkillChar (skill : isSkillChar c ∨ c = '-') : Yaml.isInline c := by
  have allowed : Yaml.isAllowed c := by
    rcases skill with skill | rfl
    · simp only [isSkillChar, Bool.or_eq_true, Bool.and_eq_true, decide_eq_true_eq, Char.le_def,
        UInt32.le_iff_toNat_le] at skill
      change (97 ≤ c.toNat ∧ c.toNat ≤ 122) ∨ (48 ≤ c.toNat ∧ c.toNat ≤ 57) at skill
      simp only [Yaml.isAllowed, Yaml.allowedRanges, List.any_cons, List.any_nil, Bool.or_false,
        Bool.or_eq_true, Bool.and_eq_true, decide_eq_true_eq]
      omega
    · decide
  have other : c ∉ ['\u0085', '\u2028', '\u2029', '\n', '\r'] :=
    Text.not_mem_of_holds (fun c => isSkillChar c ∨ c = '-') skill (by decide)
  simp only [List.mem_cons, List.not_mem_nil, or_false, not_or] at other
  simp [Yaml.isInline, Yaml.isQuotable, allowed, other]

theorem isPlain_skillNameOf (named : skillNameOf slug ≠ "") :
    IsPlain (skillNameOf slug).toList := by
  have inside : ∀ c ∈ (skillNameOf slug).toList, isSkillChar c ∨ c = '-' :=
    fun c member => mem_skillNameOf member
  have solid : ∀ c ∈ (skillNameOf slug).toList, Yaml.isSolid c := by
    intro c member
    have blank : c ∉ [' ', '\t'] :=
      Text.not_mem_of_holds (fun c => isSkillChar c ∨ c = '-') (inside c member) (by decide)
    simp only [List.mem_cons, List.not_mem_nil, or_false, not_or] at blank
    simp [Yaml.isSolid, Yaml.isBlank, blank,
      Yaml.not_isBreak_of_isInline (isInline_of_isSkillChar (inside c member))]
  refine ⟨fun empty => named (String.toList_inj.mp empty), fun c first => ?_, fun c last => ?_,
    fun c member => ?_⟩
  · have known : ∀ d ∈ Yaml.TokenReader.indicators, isSkillChar d = false := by decide
    refine ⟨solid c (List.mem_of_mem_head? first), fun indicator => ?_⟩
    have skill := isSkillChar_head_skillNameOf slug c first
    rw [known c indicator] at skill
    exact Bool.false_ne_true skill
  · exact solid c (List.mem_of_mem_getLast? last)
  · have other : c ∉ [':', '#', '\t'] :=
      Text.not_mem_of_holds (fun c => isSkillChar c ∨ c = '-') (inside c member) (by decide)
    simp only [List.mem_cons, List.not_mem_nil, or_false, not_or] at other
    exact ⟨isInline_of_isSkillChar (inside c member), other⟩

/-- A skill name is written as it is; an agent without one has nothing there. -/
theorem writes_skillName (agent : Agent) :
    Written agent.skillName.toList .plain agent.skillName.toList := by
  by_cases named : agent.skillName = ""
  · rw [named]
    exact .absent
  · exact .plain (isPlain_skillNameOf named)

/-! ## Fields of an agent -/

theorem isKey_name : IsKey "name".toList := by decide

theorem isKey_description : IsKey "description".toList := by decide

theorem isKey_tools : IsKey "tools".toList := by decide

/-- The field with the name of an agent. -/
def nameField (agent : Agent) : Field where
  key := "name".toList
  written := agent.skillName.toList
  style := .plain
  value := agent.skillName.toList
  isKey := isKey_name
  writes := writes_skillName agent

/-- The texts of an agent that stand in frontmatter beside its name can be read there. -/
structure Agent.IsReadable (agent : Agent) : Prop where
  summary : Yaml.IsRead agent.summary
  tools : Yaml.IsRead (", ".intercalate agent.tools)

/-- The field with the summary of an agent. -/
def summaryField (readable : agent.IsReadable) : Field :=
  Yaml.frontmatterField isKey_description readable.summary.quotable

/-- The field with the tools of an agent, if it declares any. -/
def toolsFields (readable : agent.IsReadable) : List Field :=
  if agent.tools.isEmpty then []
  else [Yaml.frontmatterField isKey_tools readable.tools.quotable]

/-! ## Declared names -/

/-- The name by which a document introduces itself. -/
def declaredName? (text : String) : Option Yaml.Value :=
  frontmatterValue? text "name"

/-- The name of an agent as a reader of frontmatter finds it. -/
def readName (agent : Agent) : Option Yaml.Value :=
  (Yaml.plainValue agent.skillName.toList).toOption

theorem readName_eq_string_iff {name : String} :
    readName agent = some (.string name) ↔
      name = agent.skillName ∧ Yaml.meaningOf agent.skillName.toList = .text := by
  unfold readName Yaml.plainValue
  cases means : Yaml.meaningOf agent.skillName.toList with
  | integer value =>
      simp only
      split <;> simp [Except.toOption]
  | text => simp [Except.toOption, eq_comm]
  | null | bool value | float value => simp [Except.toOption]

namespace Rendering

/-- The text of a document that begins with the frontmatter of some fields. -/
def BeginsWith (text : String) (fields : List (String × String)) : Prop :=
  ∃ document : Document, text = document.render ∧
    document.Extends (Document.empty.frontmatter fields)

/-- A persona stands after what a document has already. -/
theorem extends_persona {document other : Document} (ext : document.Extends other)
    (agent : Agent) : (persona document agent).Extends other := by
  apply Document.Extends.bulletSection
  apply Document.Extends.blank
  apply Document.Extends.block
  apply Document.Extends.blank
  apply Document.Extends.line
  apply Document.Extends.blank
  exact ext

/-- Instructions and rules stand after what a document has already. -/
theorem extends_instructions {document other : Document} (ext : document.Extends other)
    (prompt : String) (rules : List String) :
    (((document.heading 2 "Instructions").block prompt).blank.bulletSection "## Rules"
      rules).Extends other := by
  apply Document.Extends.bulletSection
  apply Document.Extends.blank
  apply Document.Extends.block
  apply Document.Extends.heading
  exact ext

theorem beginsWith_skill (agent : Agent) :
    BeginsWith (skill agent)
      [("name", agent.skillName), ("description", Yaml.frontmatterScalar agent.summary)] := by
  refine ⟨_, rfl, extends_instructions ?_ _ _⟩
  apply Document.Extends.blank
  apply Document.Extends.line
  apply Document.Extends.blank
  apply Document.Extends.heading
  apply Document.Extends.blank
  exact List.prefix_refl _

theorem beginsWith_claudeSubagent (agent : Agent) :
    BeginsWith (claudeSubagent agent)
      ([("name", agent.skillName), ("description", Yaml.frontmatterScalar agent.summary)] ++
        toolsField agent) :=
  ⟨_, rfl, extends_persona (List.prefix_refl _) agent⟩

theorem declaredName?_of_beginsWith {text : String} (fields : List Field)
    (begins : BeginsWith text ((nameField agent :: fields).map Field.pair))
    (distinct : ((nameField agent :: fields).map Field.key).Nodup)
    (reads : ∀ other ∈ fields, ∃ entry, other.entry = .ok entry) :
    declaredName? text = readName agent := by
  obtain ⟨document, rfl, ext⟩ := begins
  have key : String.ofList (nameField agent).key = "name" := String.ofList_toList
  have style : (nameField agent).style = .plain := rfl
  have value := frontmatterValue?_render ext distinct reads
  rw [key, style, Yaml.untaggedValue_plain] at value
  rw [declaredName?, value, readName, nameField]

theorem declaredName?_skill (readable : agent.IsReadable) :
    declaredName? (skill agent) = readName agent := by
  refine declaredName?_of_beginsWith [summaryField readable] ?_ ?_ ?_
  · have pairs : [nameField agent, summaryField readable].map Field.pair =
        [("name", agent.skillName), ("description", Yaml.frontmatterScalar agent.summary)] := by
      simp [Field.pair, nameField, summaryField, Yaml.frontmatterField]
    exact pairs ▸ beginsWith_skill agent
  · have keys : ["name".toList, "description".toList].Nodup := by decide
    exact keys
  · intro other member
    obtain rfl := List.mem_singleton.mp member
    exact Yaml.exists_entry_frontmatterField isKey_description readable.summary

theorem declaredName?_claudeSubagent (readable : agent.IsReadable) :
    declaredName? (claudeSubagent agent) = readName agent := by
  refine declaredName?_of_beginsWith (summaryField readable :: toolsFields readable) ?_ ?_ ?_
  · have pairs : (nameField agent :: summaryField readable :: toolsFields readable).map Field.pair =
        [("name", agent.skillName), ("description", Yaml.frontmatterScalar agent.summary)] ++
          toolsField agent := by
      unfold toolsFields toolsField
      split <;> simp [Field.pair, nameField, summaryField, Yaml.frontmatterField]
    exact pairs ▸ beginsWith_claudeSubagent agent
  · have keys : ["name".toList, "description".toList, "tools".toList].Nodup := by decide
    unfold toolsFields
    split
    · exact (List.nodup_append.mp (keys : (["name".toList, "description".toList] ++ _).Nodup)).1
    · exact keys
  · intro other member
    rcases List.mem_cons.mp member with rfl | tools
    · exact Yaml.exists_entry_frontmatterField isKey_description readable.summary
    · unfold toolsFields at tools
      split at tools
      · exact absurd tools List.not_mem_nil
      · obtain rfl := List.mem_singleton.mp tools
        exact Yaml.exists_entry_frontmatterField isKey_tools readable.tools

end Rendering

/-! ## Planned files -/

variable {target : Target} {locale : Locale} {directory : Path} {artifact : Artifact}

theorem Target.content_of_skill
    (member : ((.skill, directory), artifact) ∈ target.placed locale agent) :
    artifact.content = Rendering.skill agent := by
  cases target <;> simp [placed, places, agentArtifacts] at member <;>
    simp [member, Artifact.skill]

theorem Target.content_of_subagent
    (member : ((.subagent, directory), artifact) ∈ claude.placed locale agent) :
    artifact.content = Rendering.claudeSubagent agent := by
  simp [placed, places, agentArtifacts] at member
  simp [member]

/-- Every skill of an agent lies in a directory with the name that it declares, and the
subagent in a file with the name that it declares. -/
structure Agent.IsNamedByPlace (locale : Locale) (agent : Agent) (name : String) : Prop where
  filled : name ≠ ""
  skill : ∀ (target : Target) (directory : Path) (artifact : Artifact),
    ((.skill, directory), artifact) ∈ target.placed locale agent →
      declaredName? artifact.content = some (.string name) ∧
        artifact.path.moves = directory.moves ++ [name, "SKILL.md"]
  subagent : ∀ (directory : Path) (artifact : Artifact),
    ((.subagent, directory), artifact) ∈ Target.claude.placed locale agent →
      declaredName? artifact.content = some (.string name) ∧
        artifact.path.moves = directory.moves ++ [name ++ ".md"]

theorem Agent.isNamedByPlace_of_text (readable : agent.IsReadable) (locale : Locale)
    (text : Yaml.meaningOf agent.skillName.toList = .text) :
    agent.IsNamedByPlace locale agent.skillName := by
  have filled : agent.skillName ≠ "" := by
    intro nameless
    rw [nameless] at text
    exact absurd text (by decide)
  have read : readName agent = some (.string agent.skillName) :=
    readName_eq_string_iff.mpr ⟨rfl, text⟩
  refine ⟨filled, fun target directory artifact member => ?_,
    fun directory artifact member => ?_⟩
  · rw [Target.content_of_skill member, Rendering.declaredName?_skill readable, read,
      Target.moves_of_mem_placed member, Target.moves_fileName_skill, if_neg filled]
    exact ⟨rfl, rfl⟩
  · rw [Target.content_of_subagent member, Rendering.declaredName?_claudeSubagent readable, read,
      Target.moves_of_mem_placed member, Target.moves_fileName_subagent]
    exact ⟨rfl, rfl⟩

/-- Names that begin with a letter are texts, but for the three words. -/
theorem Agent.isNamedByPlace_of_isAlpha (readable : agent.IsReadable) (locale : Locale) {c : Char}
    {rest : List Char} (name : agent.skillName.toList = c :: rest) (letter : c.isAlpha)
    (other : agent.skillName ∉ ["null", "true", "false"]) :
    agent.IsNamedByPlace locale agent.skillName := by
  refine agent.isNamedByPlace_of_text readable locale ?_
  have skill : ∀ d ∈ agent.skillName.toList, isSkillChar d ∨ d = '-' :=
    fun d member => mem_skillNameOf member
  have lower (words : List String)
      (known : ∀ word ∈ words, word ∈ ["null", "true", "false"] ∨
        ∃ d ∈ word.toList, ¬ (isSkillChar d ∨ d = '-')) :
      words.contains (String.ofList agent.skillName.toList) = false := by
    rw [String.ofList_toList]
    refine Bool.eq_false_iff.mpr fun member => ?_
    rcases known _ (List.contains_iff_mem.mp member) with word | ⟨d, inside, upper⟩
    · exact other word
    · exact upper (skill d inside)
  rw [name] at lower ⊢
  refine Yaml.meaningOf_of_isAlpha letter (lower _ (by decide)) ?_
  unfold Yaml.boolOf?
  rw [lower _ (by decide), lower _ (by decide)]
  rfl

/-- Skills and subagents declare the names of their places exactly if the skill name of the
agent is a text where it is written without quotes. -/
theorem Agent.exists_isNamedByPlace_iff (readable : agent.IsReadable) (locale : Locale) :
    (∃ name, agent.IsNamedByPlace locale name) ↔
      Yaml.meaningOf agent.skillName.toList = .text := by
  constructor
  · rintro ⟨name, named⟩
    have member : ((.skill, ".claude/skills"), .skill ".claude/skills" agent) ∈
        Target.claude.placed locale agent := by
      simp [Target.placed, Target.places, Target.agentArtifacts]
    have declared := (named.skill _ _ _ member).1
    rw [Target.content_of_skill member, Rendering.declaredName?_skill readable] at declared
    exact (readName_eq_string_iff.mp declared).2
  · exact fun text => ⟨agent.skillName, agent.isNamedByPlace_of_text readable locale text⟩

/-- An agent with tools, whose stem has an upper-case letter and a full stop. -/
def reviewer : Agent where
  stem := "Code.Reviewer"
  source := .default
  name := "Reviewer"
  role := "Reads what others wrote"
  emoji := Definition.defaultEmoji
  systemPrompt := "Read every line."
  rules := []
  tools := ["Read", "Grep"]
  description := none

theorem exists_isNamedByPlace_reviewer :
    reviewer.IsReadable ∧ ∃ name, reviewer.IsNamedByPlace .english name := by
  have readable : reviewer.IsReadable :=
    ⟨.of_not_bare (by decide) (Yaml.IsBareNumber.not_of_begins (by decide)),
      .of_not_bare (by decide) (Yaml.IsBareNumber.not_of_begins (by decide))⟩
  exact ⟨readable, (reviewer.exists_isNamedByPlace_iff readable .english).mpr (by decide)⟩

/-! ## A name that is a number -/

/-- A definition file whose name is a number. -/
def numberedText : String :=
  "name: A\nrole: B\nsystemPrompt: abcdefghij"

def numberedTree : Files.Tree where
  entries := [(["d"], .directory), (["d", "123.yaml"], .file (.text numberedText))]
  workingDirectory := []

def numberedRequest : LoadRequest where
  defaults := .directory "d"
  overrides := none
  locale := .english
  globalRules := none

/-- A field whose value stands without quotes. -/
def plainField {key value : String} (isKey : IsKey key.toList) (plain : IsPlain value.toList) :
    Field where
  key := key.toList
  written := value.toList
  style := .plain
  value := value.toList
  isKey := isKey
  writes := .plain plain

theorem ofText_numberedText :
    Yaml.Value.ofText numberedText =
      .ok (.mapping [(.string "name", .string "A"), (.string "role", .string "B"),
        (.string "systemPrompt", .string "abcdefghij")]) := by
  have isKey_role : IsKey "role".toList := by decide
  have isKey_prompt : IsKey "systemPrompt".toList := by decide
  have name : IsPlain "A".toList := by decide
  have role : IsPlain "B".toList := by decide
  have prompt : IsPlain "abcdefghij".toList := by decide
  have text : numberedText = String.ofList (Yaml.linesOfFields
      [plainField isKey_name name, plainField isKey_role role, plainField isKey_prompt prompt]) := by
    apply String.toList_inj.mp
    simp [Yaml.linesOfFields, Field.line, plainField, numberedText, List.intercalate_cons_cons]
  have keys : ["name".toList, "role".toList, "systemPrompt".toList].Nodup := by decide
  rw [text]
  exact (Yaml.ofText_fields (plainField isKey_name name)
    [plainField isKey_role role, plainField isKey_prompt prompt] keys).trans rfl

theorem load_numberedTree :
    ∃ agent, numberedRequest.load numberedTree = .ok [("123.yaml", .loaded agent)] ∧
      agent.stem = "123" ∧ agent.role = "B" ∧ agent.description = none ∧ agent.tools = [] := by
  have unsorted : numberedRequest.unsortedFiles numberedTree = .ok ["123.yaml"] := by rfl
  have listed : numberedRequest.files numberedTree = .ok ["123.yaml"] := by
    rw [LoadRequest.files, unsorted, Except.map, List.mergeSort_singleton]
  have read : numberedRequest.readDefinition numberedTree "123.yaml" =
      .ok (numberedText, .default) := by rfl
  rw [LoadRequest.load_of_files listed, Roster.ofFiles, List.map_cons, List.map_nil,
    LoadRequest.agentOf, read]
  simp only [LoadRequest.compose, ofText_numberedText]
  exact ⟨_, rfl, rfl, rfl, rfl, rfl⟩

/-- The directory of the skill is named by a text, but the skill declares a number. -/
theorem declaredName?_numbered :
    ∃ agent, numberedRequest.load numberedTree = .ok [("123.yaml", .loaded agent)] ∧
      (Target.antigravity.plan .english [agent]).map (·.path) = [".agent/skills/123/SKILL.md"] ∧
      declaredName? (Rendering.skill agent) = some (.integer 123) ∧
      declaredName? (Rendering.claudeSubagent agent) = some (.integer 123) := by
  obtain ⟨agent, loaded, stem, role, description, tools⟩ := load_numberedTree
  have summary : agent.summary = "B" := by rw [Agent.summary, description, role]
  have readable : agent.IsReadable := by
    refine ⟨summary ▸ .of_not_bare (by decide) (Yaml.IsBareNumber.not_of_begins (by decide)), ?_⟩
    rw [tools]
    exact .of_not_bare (by decide) (Yaml.IsBareNumber.not_of_begins (by decide))
  have name : agent.skillName = "123" := by
    rw [Agent.skillName, Agent.slug, stem]
    decide
  have path : (Target.antigravity.plan .english [agent]).map (·.path) =
      [".agent/skills/123/SKILL.md"] := by
    simp only [Target.plan, Target.sharedArtifacts, List.flatMap_singleton, Target.agentArtifacts,
      List.append_nil, List.map_cons, List.map_nil, Artifact.skill, Artifact.skillPath, name]
    decide
  have number : readName agent = some (.integer 123) := by
    rw [readName, name]
    rfl
  exact ⟨agent, loaded, path, (Rendering.declaredName?_skill readable).trans number,
    (Rendering.declaredName?_claudeSubagent readable).trans number⟩

end AgentKit
