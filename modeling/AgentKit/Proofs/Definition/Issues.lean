/-
# What is wrong with a definition

Every field of a definition has a kind, which says what the field may be and what is wrong with
it otherwise. A mapping is a definition if every field is what its kind admits. If not, all that
is wrong is reported, field by field and the items of a list in their order. What is wrong with
a field depends on the value of that field, so a fault neither hides nor brings in another one,
and nothing else in the mapping matters.

Tags count unevenly. A tag of the whole definition does not matter, but under a tag a text is no
text and a list is no list; so neither of the two simple readings of "mapping", "text" and
"list" describes what is valid.
-/

import AgentKit.Proofs.Definition.Validation
import Mathlib.Data.List.Basic
import Mathlib.Tactic.MkIffOfInductiveProp

namespace AgentKit.Definition

open AgentKit.Yaml

/-- What a field may be. -/
inductive Kind where
  /-- A text of a least length. -/
  | text (minimum : Nat)
  /-- A text or nothing. -/
  | optionalText
  /-- A list of texts or nothing. -/
  | optionalTexts

/-- A field of a definition. -/
structure Field where
  name : String
  kind : Kind

/-- The fields of a definition, in the order in which their issues are reported. -/
def fields : List Field :=
  [⟨"name", .text 1⟩, ⟨"role", .text 1⟩, ⟨"systemPrompt", .text minimumPrompt⟩,
   ⟨"emoji", .optionalText⟩, ⟨"description", .optionalText⟩,
   ⟨"rules", .optionalTexts⟩, ⟨"tools", .optionalTexts⟩]

namespace Kind

variable {kind : Kind} {field : Option Value} {fault : Fault} {start : Nat} {items : List Value}

/-- What a kind admits. -/
def Admits : Kind → Option Value → Prop
  | .text minimum, field => ∃ text, field = some (.string text) ∧ minimum ≤ text.length
  | .optionalText, field => present? field = none ∨ ∃ text, field = some (.string text)
  | .optionalTexts, field =>
    present? field = none ∨ ∃ texts : List String, field = some (.sequence (texts.map .string))

/-- What is wrong with a field that its kind does not admit. -/
@[mk_iff]
inductive Violates : Kind → Option Value → Fault → Prop where
  | missing {minimum : Nat} {field : Option Value} (nothing : present? field = none) :
    Violates (.text minimum) field .missing
  | short {minimum : Nat} {text : String} (few : text.length < minimum) :
    Violates (.text minimum) (some (.string text)) (shortText minimum)
  | notText {minimum : Nat} {field : Option Value} {value : Value}
    (given : present? field = some value) (other : ∀ text, value ≠ .string text) :
    Violates (.text minimum) field .notText
  | notOptionalText {field : Option Value} {value : Value} (given : present? field = some value)
    (other : ∀ text, value ≠ .string text) : Violates .optionalText field .notText
  | notList {field : Option Value} {value : Value} (given : present? field = some value)
    (other : ∀ items, value ≠ .sequence items) : Violates .optionalTexts field .notList
  /-- Every item of a list that is no text counts for itself. -/
  | item {items : List Value} {index : Nat} {item : Value} (found : items[index]? = some item)
    (other : ∀ text, item ≠ .string text) :
    Violates .optionalTexts (some (.sequence items)) (.itemNotText index)

/-- The faults that the check of a field finds. -/
def faults : Kind → Option Value → List Fault
  | .text minimum, field => found (requiredText minimum field)
  | .optionalText, field => found (Definition.optionalText field)
  | .optionalTexts, field => found (Definition.optionalTexts field)
where
  found {α : Type} : Except (List Fault) α → List Fault
    | .ok _ => []
    | .error faults => faults

theorem present?_eq_some_iff {value : Value} :
    present? field = some value ↔ field = some value ∧ value ≠ .null := by
  rcases field with _ | found
  · simp [present?]
  cases found <;> simp [present?] <;> rintro rfl <;> simp

theorem textOf?_eq_none_iff {value : Value} :
    textOf? value = none ↔ ∀ text, value ≠ .string text := by
  cases value <;> simp [textOf?]

/-- The faults of a list are those of its items that are no texts, in their order. -/
theorem itemFaults_eq_map_findIdxs :
    itemFaults start items =
      (items.findIdxs (fun item => !(textOf? item).isSome) start).map .itemNotText := by
  induction items generalizing start with
  | nil => rfl
  | cons item items ih =>
      rw [itemFaults, ih, List.findIdxs_cons]
      cases (textOf? item).isSome <;> rfl

theorem faults_sequence :
    faults .optionalTexts (some (.sequence items)) = itemFaults 0 items := by
  rw [faults, Definition.optionalTexts]
  cases itemFaults 0 items <;> rfl

theorem mem_faults_iff : fault ∈ kind.faults field ↔ kind.Violates field fault := by
  cases kind with
  | text minimum =>
      rcases field with _ | value
      · simp [faults, faults.found, requiredText, violates_iff, present?]
      cases value with
      | string text =>
          by_cases few : text.length < minimum <;>
            simp [faults, faults.found, requiredText, violates_iff, present?, few]
      | null | bool | integer | float | sequence | mapping | tagged =>
          simp [faults, faults.found, requiredText, violates_iff, present?]
  | optionalText =>
      rcases field with _ | value
      · simp [faults, faults.found, Definition.optionalText, violates_iff, present?]
      cases value <;> simp [faults, faults.found, Definition.optionalText, violates_iff, present?]
  | optionalTexts =>
      rcases field with _ | value
      · simp [faults, faults.found, Definition.optionalTexts, violates_iff, present?]
      cases value with
      | sequence items =>
          simp only [faults_sequence, itemFaults_eq_map_findIdxs, List.mem_map,
            List.mem_findIdxs_iff_exists_getElem_pos, Bool.not_eq_true', Option.isSome_eq_false_iff,
            Option.isNone_iff_eq_none, textOf?_eq_none_iff]
          constructor
          · rintro ⟨index, ⟨inside, other⟩, rfl⟩
            exact .item (List.getElem?_eq_getElem inside) other
          · intro violated
            cases violated with
            | notList given other =>
                exact absurd (Option.some.inj (present?_eq_some_iff.mp given).1).symm (other items)
            | item found other =>
                obtain ⟨inside, rfl⟩ := List.getElem?_eq_some_iff.mp found
                exact ⟨_, ⟨inside, other⟩, rfl⟩
      | null | bool | string | integer | float | mapping | tagged =>
          simp [faults, faults.found, Definition.optionalTexts, violates_iff, present?]

/-- Only the items of a list can have several faults, and these stand in the order of the items. -/
theorem pairwise_faults (kind : Kind) (field : Option Value) :
    (kind.faults field).Pairwise fun first second =>
      ∃ index later, first = .itemNotText index ∧ second = .itemNotText later ∧ index < later := by
  cases kind with
  | text minimum =>
      rcases field with _ | value
      · simp [faults, faults.found, requiredText]
      cases value with
      | string text =>
          by_cases few : text.length < minimum <;> simp [faults, faults.found, requiredText, few]
      | null | bool | integer | float | sequence | mapping | tagged =>
          simp [faults, faults.found, requiredText]
  | optionalText =>
      rcases field with _ | value
      · simp [faults, faults.found, Definition.optionalText]
      cases value <;> simp [faults, faults.found, Definition.optionalText]
  | optionalTexts =>
      rcases field with _ | value
      · simp [faults, faults.found, Definition.optionalTexts]
      cases value with
      | sequence items =>
          rw [faults_sequence, itemFaults_eq_map_findIdxs, List.pairwise_map]
          exact List.pairwise_findIdxs.imp fun less => ⟨_, _, rfl, rfl, less⟩
      | null | bool | string | integer | float | mapping | tagged =>
          simp [faults, faults.found, Definition.optionalTexts]

/-- A kind admits a field in which the check finds nothing wrong. -/
theorem faults_eq_nil_iff : kind.faults field = [] ↔ kind.Admits field := by
  cases kind with
  | text minimum =>
      rcases field with _ | value
      · simp [faults, faults.found, requiredText, Admits]
      cases value with
      | string text =>
          by_cases few : text.length < minimum <;>
            simp [faults, faults.found, requiredText, Admits, few, Nat.not_lt.mp]
      | null | bool | integer | float | sequence | mapping | tagged =>
          simp [faults, faults.found, requiredText, Admits]
  | optionalText =>
      rcases field with _ | value
      · simp [faults, faults.found, Definition.optionalText, Admits, present?]
      cases value <;> simp [faults, faults.found, Definition.optionalText, Admits, present?]
  | optionalTexts =>
      rcases field with _ | value
      · simp [faults, faults.found, Definition.optionalTexts, Admits, present?]
      cases value with
      | sequence items => simp [faults_sequence, itemFaults_eq_nil_iff, Admits, present?]
      | null | bool | string | integer | float | mapping | tagged =>
          simp [faults, faults.found, Definition.optionalTexts, Admits, present?]

theorem admits_text_iff {minimum : Nat} :
    (Kind.text minimum).Admits field ↔ ∃ text, requiredText minimum field = .ok text := by
  simp [Admits, requiredText_eq_ok_iff, present?_eq_some_iff]

theorem admits_optionalText_iff :
    Kind.optionalText.Admits field ↔ ∃ text, Definition.optionalText field = .ok text := by
  simp [Admits, optionalText_eq_ok_iff, present?_eq_some_iff, Option.exists]

theorem admits_optionalTexts_iff :
    Kind.optionalTexts.Admits field ↔ ∃ texts, Definition.optionalTexts field = .ok texts := by
  simp only [Admits, optionalTexts_eq_ok_iff]
  cases given : present? field with
  | none => simp
  | some value => simp [present?_eq_some_iff.mp given]

end Kind

namespace Field

/-- What a mapping has for a field. -/
def value? (entries : List (Value × Value)) (field : Field) : Option Value :=
  Value.find? entries field.name

/-- These are all faults of a field in a mapping, those of items in the order of the items. -/
structure HasFaults (entries : List (Value × Value)) (field : Field) (faults : List Fault) :
    Prop where
  exact : ∀ fault, fault ∈ faults ↔ field.kind.Violates (field.value? entries) fault
  ordered : faults.Pairwise fun first second =>
    ∃ index later, first = .itemNotText index ∧ second = .itemNotText later ∧ index < later

/-- The issues of a field. -/
def issues (field : Field) (faults : List Fault) : List Issue :=
  faults.map fun fault => ⟨field.name, fault⟩

end Field

variable {entries : List (Value × Value)} {issues : List Issue}

theorem issuesOf_eq_issues {α : Type} (field : Field) (result : Except (List Fault) α) :
    issuesOf field.name result = field.issues (Kind.faults.found result) := by
  cases result <;> rfl

/-- A mapping that is no definition has the issues of all its fields. -/
theorem eq_flatMap_of_ofEntries (failed : ofEntries entries = .error issues) :
    issues = fields.flatMap fun field =>
      field.issues (field.kind.faults (field.value? entries)) := by
  simp only [ofEntries] at failed
  split at failed
  · contradiction
  · obtain rfl := Except.error.inj failed
    simp only [fields, List.flatMap_cons, List.flatMap_nil, Kind.faults, ← issuesOf_eq_issues,
      Field.value?, List.append_nil, List.append_assoc]

/-- A mapping is a definition if all its fields are admitted. -/
theorem exists_ofEntries_eq_ok_iff :
    (∃ definition, ofEntries entries = .ok definition) ↔
      ∀ field ∈ fields, field.kind.Admits (field.value? entries) := by
  have checked : (∃ definition, ofEntries entries = .ok definition) ↔
      (∃ text, requiredText 1 (Value.find? entries "name") = .ok text) ∧
      (∃ text, requiredText 1 (Value.find? entries "role") = .ok text) ∧
      (∃ text, requiredText minimumPrompt (Value.find? entries "systemPrompt") = .ok text) ∧
      (∃ text, optionalText (Value.find? entries "emoji") = .ok text) ∧
      (∃ text, optionalText (Value.find? entries "description") = .ok text) ∧
      (∃ texts, optionalTexts (Value.find? entries "rules") = .ok texts) ∧
      (∃ texts, optionalTexts (Value.find? entries "tools") = .ok texts) := by
    simp only [ofEntries]
    split <;> simp_all
  simp only [checked, ← Kind.admits_text_iff, ← Kind.admits_optionalText_iff,
    ← Kind.admits_optionalTexts_iff]
  simp [fields, Field.value?]

/-- A mapping that is no definition has an issue. -/
theorem ne_nil_of_ofEntries (failed : ofEntries entries = .error issues) : issues ≠ [] := by
  intro nothing
  have clean : ∀ field ∈ fields, field.kind.Admits (field.value? entries) := by
    intro field member
    have none := List.flatMap_eq_nil_iff.mp ((eq_flatMap_of_ofEntries failed).symm.trans nothing)
    exact Kind.faults_eq_nil_iff.mp (List.map_eq_nil_iff.mp (none field member))
  obtain ⟨definition, valid⟩ := exists_ofEntries_eq_ok_iff.mpr clean
  rw [failed] at valid
  contradiction

/-- Only the fields of a mapping matter. -/
theorem ofEntries_congr {others : List (Value × Value)}
    (same : ∀ field ∈ fields, field.value? others = field.value? entries) :
    ofEntries others = ofEntries entries := by
  simp only [fields, List.forall_mem_cons, Field.value?, List.not_mem_nil, false_implies,
    implies_true, and_true] at same
  obtain ⟨name, role, prompt, emoji, description, rules, tools⟩ := same
  simp only [ofEntries, name, role, prompt, emoji, description, rules, tools]

theorem ofValue_of_mapping {value : Value} (mapping : value.untagged = .mapping entries) :
    ofValue value = ofEntries entries := by
  simp only [ofValue, mapping]

/-- A value is a definition if, but for tags around it, it is a mapping with fields of their
kinds, and then the definition has what the mapping declares. A mapping that is no definition has
the issues of its fields, one field after the other, and what a mapping has for other keys
does not matter. -/
theorem ofValue_fieldwise (value : Value) :
    ((∃ definition, ofValue value = .ok definition) ↔
      ∃ entries, value.untagged = .mapping entries ∧
        ∀ field ∈ fields, field.kind.Admits (field.value? entries)) ∧
    (∀ entries, value.untagged = .mapping entries →
      (∀ definition, ofValue value = .ok definition → IsDeclared entries definition) ∧
      (∀ issues, ofValue value = .error issues → issues ≠ [] ∧ ∃ faults : Field → List Fault,
        (∀ field ∈ fields, field.HasFaults entries (faults field)) ∧
          issues = fields.flatMap fun field => field.issues (faults field)) ∧
      ∀ others, (∀ field ∈ fields, field.value? others = field.value? entries) →
        ofValue (.mapping others) = ofValue value) ∧
    ((∀ entries, value.untagged ≠ .mapping entries) →
      ofValue value = .error [⟨"definition", .notMapping⟩]) := by
  refine ⟨?_, fun entries mapping => ⟨?_, ?_, ?_⟩, fun other => ?_⟩
  · simp only [← exists_ofEntries_eq_ok_iff, ofValue_eq_ok_iff]
    exact ⟨fun ⟨definition, entries, mapping, valid⟩ => ⟨entries, mapping, definition, valid⟩,
      fun ⟨entries, mapping, definition, valid⟩ => ⟨definition, entries, mapping, valid⟩⟩
  · intro definition valid
    rw [ofValue_of_mapping mapping] at valid
    exact (ofEntries_eq_ok_iff.mp valid).1
  · intro issues failed
    rw [ofValue_of_mapping mapping] at failed
    refine ⟨ne_nil_of_ofEntries failed, fun field => field.kind.faults (field.value? entries),
      fun field _ => ?_, eq_flatMap_of_ofEntries failed⟩
    exact ⟨fun _ => Kind.mem_faults_iff, Kind.pairwise_faults _ _⟩
  · intro others same
    rw [ofValue_of_mapping mapping, ofValue_of_mapping rfl, ofEntries_congr same]
  · unfold ofValue
    split
    · next entries mapping => exact absurd mapping (other entries)
    · rfl

/-- The fields of a small definition, with a given name. -/
def smallEntries (name : Value) : List (Value × Value) :=
  [(.string "name", name), (.string "role", .string "B"),
   (.string "systemPrompt", .string "abcdefghij")]

/-- A value is a mapping with fields of their kinds, where every value is read in the same way. -/
def IsDescribed (read : Value → Value) (value : Value) : Prop :=
  ∃ entries, read value = .mapping entries ∧
    ∀ field ∈ fields, field.kind.Admits ((field.value? entries).map read)

/-- Tags do not count everywhere, since a mapping under a tag is a definition; and they do count
somewhere, since a mapping with a name under a tag is none. -/
theorem not_isDescribed :
    (¬ ∀ value, (∃ definition, ofValue value = .ok definition) ↔ IsDescribed id value) ∧
      ¬ ∀ value, (∃ definition, ofValue value = .ok definition) ↔
        IsDescribed Value.untagged value := by
  constructor
  · intro described
    obtain ⟨entries, mapping, _⟩ :=
      (described (.tagged "agent" (.mapping (smallEntries (.string "A"))))).mp ⟨_, rfl⟩
    contradiction
  · intro described
    have shaped : IsDescribed Value.untagged
        (.mapping (smallEntries (.tagged "agent" (.string "A")))) := by
      have long : 1 ≤ "A".length ∧ 1 ≤ "B".length ∧ minimumPrompt ≤ "abcdefghij".length := by
        decide
      refine ⟨_, rfl, ?_⟩
      simpa [fields, smallEntries, Field.value?, Value.find?, Value.untagged, Kind.Admits,
        present?] using long
    obtain ⟨definition, valid⟩ := (described _).mpr shaped
    contradiction

end AgentKit.Definition
