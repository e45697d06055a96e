/-
# Lists of rules in documents

Ten documents list the rules of an agent under a heading, one bullet for each rule. A rule is
written as it is given: the shared rules are cut into lines when they are read, but a rule that
an agent declares may have a line feed in it, and then it takes more than one line and may look
like several rules. Rules without line feeds are read back from every document. They stand below
the last line that is the heading, up to the next empty line.
-/

import AgentKit.Proofs.Document.Lines
import AgentKit.Proofs.Roster.Invariants
import AgentKit.Rendering.Claude
import AgentKit.Rendering.Copilot
import AgentKit.Rendering.Cursor
import AgentKit.Rendering.OpenCode
import AgentKit.Rendering.Prompt
import AgentKit.Rendering.Skill
import AgentKit.Rendering.Workflow
import AgentKit.Rendering.Workspace

namespace AgentKit

open Files (Tree)

/-- An agent that some project has. -/
def Agent.IsLoaded (agent : Agent) : Prop :=
  ∃ (request : LoadRequest) (tree : Tree) (roster : Roster),
    request.load tree = .ok roster ∧ agent ∈ roster.agents

/-- The language rule is always there. -/
theorem Agent.IsLoaded.rules_ne_nil {agent : Agent} (loaded : agent.IsLoaded) :
    agent.rules ≠ [] := by
  obtain ⟨request, tree, roster, roster_loaded, member⟩ := loaded
  obtain ⟨file, entry⟩ := Roster.mem_agents_iff.mp member
  have yields := (LoadRequest.of_mem_load roster_loaded entry).2
  obtain ⟨text, source, value, definition, _, _, _, rfl⟩ := LoadRequest.agentOf_eq_ok_iff.mp yields
  exact List.cons_ne_nil _ _

namespace Rendering

variable {agent other : Agent}

/-- No rule of an agent has a line feed in it. -/
def HasOneLineRules (agent : Agent) : Prop :=
  ∀ rule ∈ agent.rules, '\n' ∉ rule.toList

instance (agent : Agent) : Decidable (HasOneLineRules agent) :=
  inferInstanceAs (Decidable (∀ rule ∈ agent.rules, '\n' ∉ rule.toList))

/-- The documents of an agent that list its rules. -/
inductive RuleDocument where
  | skill
  | claudeCommand
  | claudeSubagent
  | openCodeAgent (mode : AgentMode)
  | cursorRule
  | workflow (header : String)
  | copilotInstructions (locale : Locale)
  | windsurfRules
  | traeRules
  | plainPrompt
  deriving DecidableEq, Repr

namespace RuleDocument

/-- The text of a document. -/
def text : RuleDocument → Agent → String
  | .skill => Rendering.skill
  | .claudeCommand => Rendering.claudeCommand
  | .claudeSubagent => Rendering.claudeSubagent
  | .openCodeAgent mode => (Rendering.openCodeAgent · mode)
  | .cursorRule => Rendering.cursorRule
  | .workflow header => (Rendering.workflow · header)
  | .copilotInstructions locale => (Rendering.copilotInstructions · locale)
  | .windsurfRules => Rendering.windsurfRules
  | .traeRules => Rendering.traeRules
  | .plainPrompt => Rendering.plainPrompt

/-- The line above the rules. -/
def heading : RuleDocument → String
  | .workflow _ | .traeRules => "## Constraints"
  | .copilotInstructions _ => "## Rules & Guidelines"
  | .windsurfRules => "## Guidelines"
  | .plainPrompt => "[GUIDELINES]"
  | .skill | .claudeCommand | .claudeSubagent | .openCodeAgent _ | .cursorRule => "## Rules"

/-- The lines of a document below its rules and the empty line that ends them. -/
def closing : RuleDocument → List String
  | .claudeCommand => ["## Task", "", requestPlace]
  | .copilotInstructions locale =>
    ["## Response Style", "- Be concise and objective.",
      "- Follow the conventions already present in the project.", "- " ++ locale.languageRule]
  | _ => []

end RuleDocument

/-! ## Where the rules stand -/

/-- A command ends in the place of the request, below a heading of its own. -/
theorem taskSection_eq_append (document : Document) :
    ((document.heading 2 "Task").blank).line requestPlace =
      document.append RuleDocument.claudeCommand.closing := by
  have last : (document.heading 2 "Task").lines.getLast? = some "## Task" :=
    List.getLast?_concat
  rw [Document.blank_of_getLast? last (by decide)]
  simp only [Document.line, Document.heading, Document.append_append]
  rfl

/-- Instructions end in a section on replies, whose last item is the language rule. -/
theorem styleSection_eq_append (document : Document) (locale : Locale) :
    ((((document.heading 2 "Response Style").line "- Be concise and objective.").line
      "- Follow the conventions already present in the project.").line
      ("- " ++ locale.languageRule)) =
      document.append (RuleDocument.copilotInstructions locale).closing := by
  simp only [Document.line, Document.heading, Document.append_append]
  rfl

/-- Every document is a beginning, the list of rules and the closing lines. -/
theorem exists_opening (document : RuleDocument) (agent : Agent) :
    ∃ opening : Document, document.text agent =
      ((opening.bulletSection document.heading agent.rules).append document.closing).render := by
  cases document with
  | claudeCommand => exact ⟨_, congrArg Document.render (taskSection_eq_append _)⟩
  | copilotInstructions locale =>
      exact ⟨_, congrArg Document.render (styleSection_eq_append _ locale)⟩
  | _ => exact ⟨_, congrArg Document.render (Document.append_nil _).symm⟩

/-- A heading is a line that is not empty and not a bullet. -/
theorem heading_spec (document : RuleDocument) :
    document.heading ≠ "" ∧ '\n' ∉ document.heading.toList ∧
      ∀ rule, document.heading.toList ≠ Document.bullet rule := by
  have first (rule : String) : (Document.bullet rule).head? = some '-' := by
    rw [Document.bullet_eq_append]
    rfl
  have known : document.heading ∈
      ["## Constraints", "## Rules & Guidelines", "## Guidelines", "[GUIDELINES]", "## Rules"] := by
    cases document <;> simp [RuleDocument.heading]
  have proper : ∀ heading ∈ ["## Constraints", "## Rules & Guidelines", "## Guidelines",
      "[GUIDELINES]", "## Rules"],
      heading ≠ "" ∧ '\n' ∉ heading.toList ∧ heading.toList.head? ≠ some '-' := by
    decide
  obtain ⟨filled, plain, other⟩ := proper _ known
  refine ⟨filled, plain, ?_⟩
  intro rule same
  exact other (same ▸ first rule)

/-- The heading of the rules is not among the closing lines. -/
theorem heading_notMem_closing (document : RuleDocument) :
    document.heading.toList ∉ document.closing.flatMap (Text.splitAt '\n' ·.toList) := by
  cases document with
  | claudeCommand => decide
  | copilotInstructions locale => cases locale <;> decide +kernel
  | _ => exact List.not_mem_nil

/-- Below the heading stand the lines of the rules, up to the first empty line. Where the rules
have no line feeds, the heading does not stand there once more. -/
theorem exists_splitAt_text (document : RuleDocument) (some_rule : agent.rules ≠ []) :
    ∃ before after, Text.splitAt '\n' (document.text agent).toList =
        before ++ document.heading.toList :: after ∧
      after.takeWhile (· ≠ []) =
        (agent.rules.flatMap Document.bulletLines).takeWhile (· ≠ []) ∧
      (HasOneLineRules agent → document.heading.toList ∉ after) := by
  obtain ⟨opening, text⟩ := exists_opening document agent
  obtain ⟨filled, plain, other⟩ := heading_spec document
  obtain ⟨after, lines, taken, sources⟩ :=
    Document.exists_splitAt_bulletSection opening document.closing some_rule filled plain
  refine ⟨opening.textLines, after, text ▸ lines, taken, ?_⟩
  intro oneLine inside
  rcases sources _ inside with empty | bullets | closes
  · exact filled (String.toList_eq_nil_iff.mp empty)
  · rw [Document.flatMap_bulletLines oneLine] at bullets
    obtain ⟨rule, _, same⟩ := List.mem_map.mp bullets
    exact other rule same.symm
  · exact heading_notMem_closing document closes

/-- Bullets without line feeds are all taken. -/
theorem takeWhile_bulletLines (oneLine : HasOneLineRules agent) :
    (agent.rules.flatMap Document.bulletLines).takeWhile (· ≠ []) =
      agent.rules.map Document.bullet := by
  rw [Document.flatMap_bulletLines oneLine, List.takeWhile_eq_self_iff]
  intro line member
  obtain ⟨rule, _, rfl⟩ := List.mem_map.mp member
  rw [Document.bullet_eq_append]
  rfl

/-- Rules that are listed one a line, below whatever line, have no line feeds. -/
theorem hasOneLineRules_of_listed {cs line : List Char} {before after : List (List Char)}
    (lines : Text.splitAt '\n' cs = before ++ line :: after)
    (listed : after.takeWhile (· ≠ []) = agent.rules.map Document.bullet) :
    HasOneLineRules agent := by
  intro rule member feed
  have bullet : Document.bullet rule ∈ after.takeWhile (· ≠ []) := by
    rw [listed]
    exact List.mem_map_of_mem member
  have below := (List.takeWhile_prefix _).subset bullet
  have piece : Document.bullet rule ∈ Text.splitAt '\n' cs := by
    rw [lines]
    exact List.mem_append_right before (List.mem_cons_of_mem _ below)
  exact (Text.mem_and_not_of_mem_splitWhere piece (Document.lineFeed_mem_bullet_iff.mpr feed)).2
    (by simp)

/-! ## Documents tell lists of rules apart -/

/-- A line that is no more found below one place is not found below a later one either. -/
theorem eq_nil_of_notMem {line : List Char} {more after after' : List (List Char)}
    (rest : line :: after = more ++ line :: after') (last : line ∉ after) : more = [] := by
  cases more with
  | nil => rfl
  | cons first more =>
      have below : after = more ++ line :: after' := (List.cons.inj rest).2
      exact absurd (below ▸ List.mem_append_right more List.mem_cons_self) last

/-- What stands below the last line that is the heading is determined by the lines. -/
theorem after_inj {line : List Char} {before after before' after' : List (List Char)}
    (same : before ++ line :: after = before' ++ line :: after') (last : line ∉ after)
    (last' : line ∉ after') : after = after' := by
  rcases List.append_eq_append_iff.mp same with ⟨more, _, rest⟩ | ⟨more, _, rest⟩
  · rw [eq_nil_of_notMem rest last] at rest
    exact (List.cons.inj rest).2
  · rw [eq_nil_of_notMem rest last'] at rest
    exact (List.cons.inj rest).2.symm

/-- Documents with the same text list the same rules, if none of these has a line feed. -/
theorem rules_eq_of_text_eq {document : RuleDocument} (some_rule : agent.rules ≠ [])
    (some_rule' : other.rules ≠ []) (oneLine : HasOneLineRules agent)
    (oneLine' : HasOneLineRules other) (same : document.text agent = document.text other) :
    agent.rules = other.rules := by
  obtain ⟨before, after, lines, taken, last⟩ := exists_splitAt_text document some_rule
  obtain ⟨before', after', lines', taken', last'⟩ := exists_splitAt_text document some_rule'
  rw [same, lines'] at lines
  have below : after' = after := after_inj lines (last' oneLine') (last oneLine)
  rw [takeWhile_bulletLines oneLine] at taken
  rw [takeWhile_bulletLines oneLine', below, taken] at taken'
  exact List.map_injective_iff.mpr Document.bullet_injective taken'

/-- Below the heading of its rules, a document of a loaded agent has the lines of one bullet for
each rule, up to the first empty line. They are one line for each rule just where no rule has a
line feed, and then they stand below the last line that is the heading; so agents with different
rules of this kind never get the same document. -/
theorem rules_listed (document : RuleDocument) (loaded : agent.IsLoaded) :
    (∃ before after, Text.splitAt '\n' (document.text agent).toList =
        before ++ document.heading.toList :: after ∧
      after.takeWhile (· ≠ []) =
        (agent.rules.flatMap Document.bulletLines).takeWhile (· ≠ []) ∧
      (after.takeWhile (· ≠ []) = agent.rules.map Document.bullet ↔ HasOneLineRules agent) ∧
      (HasOneLineRules agent → document.heading.toList ∉ after)) ∧
    (HasOneLineRules agent → ∀ other : Agent, other.IsLoaded → HasOneLineRules other →
      agent.rules ≠ other.rules → document.text agent ≠ document.text other) := by
  constructor
  · obtain ⟨before, after, lines, taken, last⟩ := exists_splitAt_text document loaded.rules_ne_nil
    refine ⟨before, after, lines, taken, ⟨hasOneLineRules_of_listed lines, ?_⟩, last⟩
    intro oneLine
    exact taken.trans (takeWhile_bulletLines oneLine)
  · intro oneLine other loaded' oneLine' differ same
    exact differ
      (rules_eq_of_text_eq loaded.rules_ne_nil loaded'.rules_ne_nil oneLine oneLine' same)

/-! ## A rule that looks like two -/

/-- A project with a single definition file. -/
def ruledTree (text : String) : Tree where
  entries := [(["d"], .directory), (["d", "a.yaml"], .file (.text text))]
  workingDirectory := []
  sound := ⟨by simp, by simp, by simp; decide⟩

/-- Its agent, if the file declares some rules. -/
def ruled (rules : List String) : Agent :=
  { Target.twin "a" with rules := "Always reply in English unless told otherwise." :: rules }

theorem load_ruledTree {text : String}
    (composed : Target.twinRequest.compose "a.yaml" text .default = .ok agent) :
    Target.twinRequest.load (ruledTree text) = .ok [("a.yaml", .loaded agent)] := by
  have unsorted : Target.twinRequest.unsortedFiles (ruledTree text) = .ok ["a.yaml"] := by rfl
  have listed : Target.twinRequest.files (ruledTree text) = .ok ["a.yaml"] := by
    rw [LoadRequest.files, unsorted, Except.map, List.mergeSort_singleton]
  have read : Target.twinRequest.readDefinition (ruledTree text) "a.yaml" =
      .ok (text, .default) := by rfl
  have yields : Target.twinRequest.agentOf (ruledTree text) "a.yaml" = .ok agent := by
    rw [LoadRequest.agentOf, read]
    exact composed
  rw [LoadRequest.load_of_files listed, Roster.ofFiles, List.map_cons, List.map_nil, yields]
  rfl

theorem isLoaded_of_compose {text : String}
    (composed : Target.twinRequest.compose "a.yaml" text .default = .ok agent) :
    agent.IsLoaded :=
  ⟨Target.twinRequest, ruledTree text, _, load_ruledTree composed, List.mem_singleton_self _⟩

/-- Two rules, one a line when they are listed. -/
def twoRulesText : String :=
  "\x7bname: A, role: B, systemPrompt: abcdefghij, rules: [a, b]\x7d"

/-- One rule with a line feed, and a hyphen behind it. -/
def brokenRuleText : String :=
  "\x7bname: A, role: B, systemPrompt: abcdefghij, rules: [\"a\\n- b\"]\x7d"

theorem ofText_twoRulesText :
    Yaml.Value.ofText twoRulesText =
      .ok (.mapping [(.string "name", .string "A"), (.string "role", .string "B"),
        (.string "systemPrompt", .string "abcdefghij"),
        (.string "rules", .sequence [.string "a", .string "b"])]) := by
  cbv

theorem ofText_brokenRuleText :
    Yaml.Value.ofText brokenRuleText =
      .ok (.mapping [(.string "name", .string "A"), (.string "role", .string "B"),
        (.string "systemPrompt", .string "abcdefghij"),
        (.string "rules", .sequence [.string "a\n- b"])]) := by
  cbv

theorem isLoaded_ruled : (ruled ["a", "b"]).IsLoaded ∧ (ruled ["a\n- b"]).IsLoaded := by
  constructor
  · have composed : Target.twinRequest.compose "a.yaml" twoRulesText .default =
        .ok (ruled ["a", "b"]) := by
      rw [LoadRequest.compose, ofText_twoRulesText]
      rfl
    exact isLoaded_of_compose composed
  · have composed : Target.twinRequest.compose "a.yaml" brokenRuleText .default =
        .ok (ruled ["a\n- b"]) := by
      rw [LoadRequest.compose, ofText_brokenRuleText]
      rfl
    exact isLoaded_of_compose composed

/-- An agent with two rules, whose instructions are not those of an agent without rules of
its own. -/
theorem rules_listed_ruled :
    (ruled ["a", "b"]).IsLoaded ∧ HasOneLineRules (ruled ["a", "b"]) ∧
      (∃ before after,
        Text.splitAt '\n' (copilotInstructions (ruled ["a", "b"]) .english).toList =
          before ++ "## Rules & Guidelines".toList :: after ∧
        after.takeWhile (· ≠ []) =
          ["- Always reply in English unless told otherwise.", "- a", "- b"].map String.toList ∧
        "## Rules & Guidelines".toList ∉ after) ∧
      copilotInstructions (ruled ["a", "b"]) .english ≠
        copilotInstructions (Target.twin "a-b") .english := by
  have twin : (Target.twin "a-b").IsLoaded := by
    obtain ⟨roster, loaded, agents⟩ := Target.load_twinTree
    refine ⟨_, _, roster, loaded, ?_⟩
    rw [agents]
    exact List.mem_cons_self
  have oneLine : HasOneLineRules (ruled ["a", "b"]) := by decide
  obtain ⟨⟨before, after, lines, _, listed, last⟩, apart⟩ :=
    rules_listed (.copilotInstructions .english) isLoaded_ruled.1
  exact ⟨isLoaded_ruled.1, oneLine, ⟨before, after, lines, listed.mpr oneLine, last oneLine⟩,
    apart oneLine _ twin (by decide) (by decide)⟩

/-- A rule with a line feed is not listed on one line, wherever the list is taken to be; and it
can look like two rules. -/
theorem skill_of_brokenRule :
    (ruled ["a", "b"]).IsLoaded ∧ (ruled ["a\n- b"]).IsLoaded ∧
      (¬ ∃ before after, Text.splitAt '\n' (skill (ruled ["a\n- b"])).toList =
          before ++ "## Rules".toList :: after ∧
        after.takeWhile (· ≠ []) = (ruled ["a\n- b"]).rules.map Document.bullet) ∧
      { ruled ["a", "b"] with rules := (ruled ["a\n- b"]).rules } = ruled ["a\n- b"] ∧
      (ruled ["a", "b"]).rules ≠ (ruled ["a\n- b"]).rules ∧
      skill (ruled ["a", "b"]) = skill (ruled ["a\n- b"]) := by
  refine ⟨isLoaded_ruled.1, isLoaded_ruled.2, ?_, rfl, by decide, ?_⟩
  · rintro ⟨before, after, lines, listed⟩
    have oneLine : HasOneLineRules (ruled ["a\n- b"]) := hasOneLineRules_of_listed lines listed
    exact absurd oneLine (by decide)
  · have same : (ruled ["a", "b"]).rules.flatMap Document.bulletLines =
        (ruled ["a\n- b"]).rules.flatMap Document.bulletLines := by
      decide +kernel
    have plain : '\n' ∉ "## Rules".toList := by decide
    have text (opening : Document) := Document.render_bulletSection_congr opening []
      (List.cons_ne_nil _ _) (List.cons_ne_nil _ _) plain same
    simp only [Document.append_nil] at text
    exact text _

end Rendering

end AgentKit
