/-
# What a command of the Gemini command line says

A command is read by a TOML reader as the description, the prompt and the rules of its agent.
Quotes and backslashes of any number and in any order make no difference. But only backslashes,
quotes, tabs and line breaks are escaped: an agent with another control character in one of
its texts has a command that is no TOML document, and so has an agent whose prompt has a
carriage return that belongs to no line break. A carriage return that does belong to one is
dropped by a reader that reads every line break as a line feed.
-/

import AgentKit.Definition.Validation
import AgentKit.Locale
import AgentKit.Proofs.Toml.Entries
import AgentKit.Rendering.Gemini
import AgentKit.RuleText

namespace AgentKit

/-- The text of a document ends in a line feed. -/
theorem Document.exists_render (document : Document) :
    ∃ body, document.render.toList = body ++ ['\n'] :=
  ⟨_, String.toList_ofList⟩

namespace Rendering

open Toml (quote itemLines readEntries IsWritable AreWritable IsKept)
open Document (escapeRuns)

variable {keepsReturn : Bool} {agent : Agent} {rules : List String} {rest : List Char}

/-! ## The characters of a command -/

theorem toList_quoted (text : String) : (Document.quoted text).toList = quote text.toList := by
  simp [Document.quoted, Document.escaped, quote]

theorem toList_geminiRules (some_rule : rules ≠ []) :
    (geminiRules rules).toList =
      '\n' :: ("rules".toList ++ ' ' :: '=' :: ' ' :: '[' ::
        ('\n' :: itemLines rules ++ [']', '\n'])) := by
  have lines : (rules.map fun rule => "  " ++ Document.quoted rule ++ ",\n").flatMap String.toList =
      itemLines rules := by
    have line (rule : String) : ("  " ++ Document.quoted rule ++ ",\n").toList =
        ' ' :: ' ' :: quote rule.toList ++ [',', '\n'] := by
      simp [toList_quoted]
    simp only [List.flatMap_map, line, itemLines]
  rw [geminiRules, if_neg (by simpa using some_rule)]
  simp [String.toList_join, lines]

/-- The characters of a command from its prompt on. -/
def promptOn (body : List Char) (rules : List String) : List Char :=
  "prompt".toList ++ ' ' :: '=' :: ' ' :: '"' :: '"' :: '"' :: '\n' :: (escapeRuns body ++
    '\n' :: '"' :: '"' :: '"' :: '\n' :: (geminiRules rules).toList)

theorem toList_geminiCommand {body : List Char}
    (prompt : (geminiPrompt agent).toList = body ++ ['\n']) :
    (geminiCommand agent).toList =
      "description".toList ++ ' ' :: '=' :: ' ' :: (quote agent.summary.toList ++
        '\n' :: '\n' :: promptOn body agent.rules) := by
  have escaped : Document.escapeMultiline (geminiPrompt agent).toList =
      escapeRuns body ++ ['\n'] := by
    rw [Document.escapeMultiline_eq_escapeRuns, prompt, Document.escapeRuns_concat]
  unfold geminiCommand promptOn
  generalize geminiPrompt agent = text at escaped
  simp [toList_quoted, escaped]

/-! ## The entries of a command -/

/-- The entry with the rules, if there are any. -/
def ruleEntries (rules : List String) : List (String × Toml.Value) :=
  if rules.isEmpty then [] else [("rules", .list rules)]

/-- What the command of an agent is to say. -/
def commandEntries (agent : Agent) : List (String × Toml.Value) :=
  ("description", .text agent.summary) :: ("prompt", .text (geminiPrompt agent)) ::
    ruleEntries agent.rules

theorem readEntries_geminiRules (keepsReturn : Bool) (rules : List String) :
    readEntries keepsReturn (geminiRules rules).toList =
      if AreWritable rules then some (ruleEntries rules) else none := by
  by_cases none_left : rules = []
  · rw [none_left]
    exact (Toml.readEntries_of_ended rfl).trans (if_pos (by simp [AreWritable])).symm
  · have inside : Toml.skipGaps ('\n' :: ("rules".toList ++ ' ' :: '=' :: ' ' :: '[' ::
          ('\n' :: itemLines rules ++ [']', '\n']))) =
        "rules".toList ++ ' ' :: '=' :: ' ' :: '[' :: ('\n' :: itemLines rules ++ [']', '\n']) := rfl
    have isKey : Toml.IsKey "rules" := by decide
    have entry := Toml.readEntry_list isKey (@Toml.readItems_itemLines keepsReturn rules ['\n'])
    rw [toList_geminiRules none_left, Toml.readEntries_of_entry inside (by simp) entry rfl,
      Toml.readEntries_of_ended rfl]
    by_cases writable : AreWritable rules <;> simp [writable, ruleEntries, none_left]

theorem readEntries_promptOn (keepsReturn : Bool) (body : List Char) (rules : List String) :
    readEntries keepsReturn ('\n' :: promptOn body rules) =
      ((Toml.Form.lines keepsReturn).meaningOf? (body ++ ['\n'])).bind fun prompt =>
        if AreWritable rules then
          some (("prompt", .text (String.ofList prompt)) :: ruleEntries rules)
        else none := by
  have entry : Toml.readEntry keepsReturn (promptOn body rules) = _ :=
    Toml.readEntry_text (by decide) rfl (Toml.readText_lines body (by simp))
  have inside : Toml.skipGaps ('\n' :: promptOn body rules) = promptOn body rules := rfl
  have filled : promptOn body rules ≠ [] := List.append_ne_nil_of_left_ne_nil (by decide) _
  rw [Toml.readEntries_of_entry inside filled entry (show _ = some _ from rfl),
    readEntries_geminiRules, Option.bind_map]
  by_cases writable : AreWritable rules <;> simp [writable, Function.comp_def]

/-- What is read of the command of any agent. -/
theorem readEntries_geminiCommand (keepsReturn : Bool) (agent : Agent) :
    readEntries keepsReturn (geminiCommand agent).toList =
      if AreWritable (agent.summary :: agent.rules) then
        ((Toml.Form.lines keepsReturn).meaningOf? (geminiPrompt agent).toList).map fun prompt =>
          ("description", .text agent.summary) :: ("prompt", .text (String.ofList prompt)) ::
            ruleEntries agent.rules
      else none := by
  obtain ⟨body, prompt⟩ : ∃ body, (geminiPrompt agent).toList = body ++ ['\n'] :=
    Document.exists_render _
  have text := @Toml.readText_quote keepsReturn ('\n' :: '\n' :: promptOn body agent.rules)
    agent.summary.toList (by simp)
  have isKey : Toml.IsKey "description" := by decide
  have entry := Toml.readEntry_text isKey rfl text
  rw [toList_geminiCommand prompt, prompt]
  generalize whole : "description".toList ++ ' ' :: '=' :: ' ' :: (quote agent.summary.toList ++
    '\n' :: '\n' :: promptOn body agent.rules) = cs at entry
  have inside : Toml.skipGaps cs = cs := by
    rw [← whole]
    rfl
  have filled : cs ≠ [] := by
    rw [← whole]
    exact List.append_ne_nil_of_left_ne_nil (by decide) _
  rw [Toml.readEntries_of_entry inside filled entry (show _ = some _ from rfl),
    readEntries_promptOn]
  by_cases summary : IsWritable agent.summary.toList <;>
    by_cases writable : AreWritable agent.rules <;>
      cases (Toml.Form.lines keepsReturn).meaningOf? (body ++ ['\n']) <;>
        simp [Toml.areWritable_cons, summary, writable]

/-- No key stands twice in a command. -/
theorem nodup_keys (description prompt : Toml.Value) (rules : List String) :
    ((("description", description) :: ("prompt", prompt) :: ruleEntries rules).map (·.1)).Nodup := by
  unfold ruleEntries
  split <;> simp

/-- What is read of the command of an agent as a document. -/
theorem read_geminiCommand (keepsReturn : Bool) (agent : Agent) :
    Toml.read keepsReturn (geminiCommand agent) =
      if AreWritable (agent.summary :: agent.rules) then
        ((Toml.Form.lines keepsReturn).meaningOf? (geminiPrompt agent).toList).map fun prompt =>
          ("description", .text agent.summary) :: ("prompt", .text (String.ofList prompt)) ::
            ruleEntries agent.rules
      else none := by
  rw [Toml.read, readEntries_geminiCommand]
  by_cases writable : AreWritable (agent.summary :: agent.rules)
  · rw [if_pos writable]
    cases (Toml.Form.lines keepsReturn).meaningOf? (geminiPrompt agent).toList with
    | none => rfl
    | some prompt => exact Option.filter_some_pos (decide_eq_true (nodup_keys _ _ _))
  · rw [if_neg writable]
    rfl

/-- The command of an agent says what it is to say exactly if the control characters in the
description and the rules are tabs and line breaks and the prompt is kept as it is. -/
theorem read_geminiCommand_eq_iff (keepsReturn : Bool) (agent : Agent) :
    Toml.read keepsReturn (geminiCommand agent) = some (commandEntries agent) ↔
      AreWritable (agent.summary :: agent.rules) ∧
        IsKept keepsReturn (geminiPrompt agent).toList := by
  rw [read_geminiCommand, ← Toml.meaningOf?_eq_self_iff]
  by_cases writable : AreWritable (agent.summary :: agent.rules)
  · cases meaning : (Toml.Form.lines keepsReturn).meaningOf? (geminiPrompt agent).toList with
    | none => simp [writable]
    | some prompt =>
        have same : String.ofList prompt = geminiPrompt agent ↔
            prompt = (geminiPrompt agent).toList := by
          rw [← String.toList_inj, String.toList_ofList]
        simp [writable, commandEntries, same]
  · simp [writable]

/-! ## A control character in a description -/

/-- The value of a definition whose description has a bell in it. -/
def ringingValue : Yaml.Value :=
  .mapping [(.string "name", .string "A"), (.string "role", .string "B"),
    (.string "systemPrompt", .string "abcdefghij"), (.string "description", .string "a\x07b")]

def ringingDefinition : Definition where
  name := "A"
  role := "B"
  emoji := Definition.defaultEmoji
  systemPrompt := "abcdefghij"
  rules := []
  tools := []
  description := some "a\x07b"

/-- The command of an agent whose definition is valid is no TOML document. -/
theorem read_ringing :
    Definition.ofValue ringingValue = .ok ringingDefinition ∧
      ∀ keepsReturn, Toml.read keepsReturn (geminiCommand (.ofDefinition ringingDefinition "x"
        .default (RuleText.compose [] Locale.english.languageRule none))) = none := by
  refine ⟨rfl, fun keepsReturn => ?_⟩
  rw [read_geminiCommand, if_neg]
  intro all
  have first := (Toml.areWritable_cons.mp all).1
  revert first
  decide

end Rendering

end AgentKit
