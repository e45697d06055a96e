/-
# Validation of definitions

A definition is written as a mapping. Its name, role and prompt are required
texts; an emoji and a description are optional texts; rules and tools are optional
lists of texts. A null counts as absent, and keys other than these do not matter.
Every fault of every field is reported, in the order of the fields, so a report
is complete.
-/

import AgentKit.Definition
import AgentKit.Yaml.Value

namespace AgentKit.Definition

open AgentKit.Yaml

/-- What can be wrong with a field. -/
inductive Fault where
  /-- The definition is not a mapping. -/
  | notMapping
  /-- The field is absent. -/
  | missing
  /-- The text has no characters. -/
  | emptyText
  /-- The text has fewer characters than required. -/
  | tooShort (minimum : Nat)
  /-- The value is not text. -/
  | notText
  /-- The value is not a list. -/
  | notList
  /-- An item of the list is not text. -/
  | itemNotText (index : Nat)
  deriving DecidableEq, Repr

/-- The wording of a fault. -/
def Fault.message : Fault → String
  | .notMapping => "expected a mapping of fields"
  | .missing => "is required"
  | .emptyText => "must not be empty"
  | .tooShort minimum => "must be at least " ++ toString minimum ++ " characters"
  | .notText => "expected a string"
  | .notList => "expected a list of strings"
  | .itemNotText index => "item " ++ toString index ++ " must be a string"

/-- A fault of a named field. -/
structure Issue where
  field : String
  fault : Fault
  deriving DecidableEq, Repr

/-- The wording of an issue. -/
def Issue.message (issue : Issue) : String :=
  issue.field ++ ": " ++ issue.fault.message

/-- The wording of all issues of a definition. -/
def issuesMessage (issues : List Issue) : String :=
  "schema validation failed (" ++ "; ".intercalate (issues.map Issue.message) ++ ")"

/-- The least number of characters of a prompt. -/
def minimumPrompt : Nat := 10

/-- The fault of a text that is shorter than required. -/
def shortText (minimum : Nat) : Fault :=
  if minimum ≤ 1 then .emptyText else .tooShort minimum

/-- A field that must be a text of a least length. -/
def requiredText (minimum : Nat) : Option Value → Except (List Fault) String
  | none | some .null => .error [.missing]
  | some (.string text) =>
    if text.length < minimum then .error [shortText minimum] else .ok text
  | some _ => .error [.notText]

/-- A field that may be a text. -/
def optionalText : Option Value → Except (List Fault) (Option String)
  | none | some .null => .ok none
  | some (.string text) => .ok (some text)
  | some _ => .error [.notText]

/-- The text that a value is. -/
def textOf? : Value → Option String
  | .string text => some text
  | _ => none

/-- The faults of the items of a list of texts, counted from `index`. -/
def itemFaults (index : Nat) : List Value → List Fault
  | [] => []
  | item :: items =>
    if (textOf? item).isSome then itemFaults (index + 1) items
    else .itemNotText index :: itemFaults (index + 1) items

/-- A field that may be a list of texts. -/
def optionalTexts : Option Value → Except (List Fault) (List String)
  | none | some .null => .ok []
  | some (.sequence items) =>
    match itemFaults 0 items with
    | [] => .ok (items.filterMap textOf?)
    | faults => .error faults
  | some _ => .error [.notList]

/-- The issues of a field that was checked. -/
def issuesOf {α : Type} (field : String) : Except (List Fault) α → List Issue
  | .ok _ => []
  | .error faults => faults.map fun fault => ⟨field, fault⟩

/-- The definition that a mapping writes, or all its issues. -/
def ofEntries (entries : List (Value × Value)) : Except (List Issue) Definition :=
  let name := requiredText 1 (Value.find? entries "name")
  let role := requiredText 1 (Value.find? entries "role")
  let prompt := requiredText minimumPrompt (Value.find? entries "systemPrompt")
  let emoji := optionalText (Value.find? entries "emoji")
  let description := optionalText (Value.find? entries "description")
  let rules := optionalTexts (Value.find? entries "rules")
  let tools := optionalTexts (Value.find? entries "tools")
  match name, role, prompt, emoji, description, rules, tools with
  | .ok name, .ok role, .ok prompt, .ok emoji, .ok description, .ok rules, .ok tools =>
    .ok
      { name := name
        role := role
        emoji := emoji.getD defaultEmoji
        systemPrompt := prompt
        rules := rules
        tools := tools
        description := description }
  | name, role, prompt, emoji, description, rules, tools =>
    .error <|
      issuesOf "name" name ++ issuesOf "role" role ++ issuesOf "systemPrompt" prompt ++
        issuesOf "emoji" emoji ++ issuesOf "description" description ++
        issuesOf "rules" rules ++ issuesOf "tools" tools

/-- The definition that a value writes, or all its issues. A tag of the whole
definition does not matter. -/
def ofValue (value : Value) : Except (List Issue) Definition :=
  match value.untagged with
  | .mapping entries => ofEntries entries
  | _ => .error [⟨"definition", .notMapping⟩]

end AgentKit.Definition
