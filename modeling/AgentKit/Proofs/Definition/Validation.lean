/-
# What a valid definition declares

A mapping is a definition if every field is of its kind and long enough, and then the definition
has what the mapping declares: the texts and lists of texts as they stand there, and the default
emoji where none is declared. A field with a null declares nothing. Nothing else is filled in,
since a required text that is missing or too short is an issue.
-/

import AgentKit.Definition.Validation

namespace AgentKit.Definition

open AgentKit.Yaml

variable {entries : List (Value × Value)} {definition : Definition} {minimum : Nat}
  {field : Option Value} {text : String} {texts : List String} {items : List Value}

/-- The value of a field, where a null is none. -/
def present? : Option Value → Option Value
  | some .null => none
  | field => field

/-- What a mapping declares for a field. -/
def declared? (entries : List (Value × Value)) (field : String) : Option Value :=
  present? (Value.find? entries field)

/-! ## One field -/

/-- A required text is the text of the field, which is long enough. -/
theorem requiredText_eq_ok_iff :
    requiredText minimum field = .ok text ↔
      present? field = some (.string text) ∧ minimum ≤ text.length := by
  rcases field with _ | value
  · simp [requiredText, present?]
  cases value with
  | string found =>
      rw [requiredText, present?]
      · by_cases short : found.length < minimum
        · simp only [short, if_true, reduceCtorEq, Option.some.injEq, Value.string.injEq, false_iff]
          rintro ⟨rfl, long⟩
          exact absurd short (Nat.not_lt.mpr long)
        · simp only [short, if_false, Except.ok.injEq, Option.some.injEq, Value.string.injEq]
          constructor
          · rintro rfl
            exact ⟨rfl, Nat.not_lt.mp short⟩
          · exact And.left
      · simp
  | null | bool | integer | float | sequence | mapping | tagged => simp [requiredText, present?]

theorem optionalText_eq_ok_iff {text : Option String} :
    optionalText field = .ok text ↔ present? field = text.map .string := by
  rcases field with _ | value
  · cases text <;> simp [optionalText, present?]
  cases value with
  | string found => cases text <;> simp [optionalText, present?]
  | null => cases text <;> simp [optionalText, present?]
  | bool | integer | float | sequence | mapping | tagged =>
      cases text <;> simp [optionalText, present?]

theorem textOf?_eq_some_iff {value : Value} : textOf? value = some text ↔ value = .string text := by
  cases value <;> simp [textOf?]

/-- A list of values has no fault if all of them are texts. -/
theorem itemFaults_eq_nil_iff {index : Nat} :
    itemFaults index items = [] ↔ ∃ texts : List String, items = texts.map .string := by
  induction items generalizing index with
  | nil => exact iff_of_true rfl ⟨[], rfl⟩
  | cons item items ih =>
      cases found : textOf? item with
      | none =>
          simp only [itemFaults, found, Option.isSome_none, Bool.false_eq_true, if_false,
            reduceCtorEq, false_iff, not_exists]
          rintro (_ | ⟨text, texts⟩) same
          · contradiction
          · rw [List.map_cons, List.cons.injEq, ← textOf?_eq_some_iff, found] at same
            exact absurd same.1 (Option.some_ne_none text).symm
      | some text =>
          obtain rfl := textOf?_eq_some_iff.mp found
          simp only [itemFaults, found, Option.isSome_some, if_true, ih]
          constructor
          · rintro ⟨texts, rfl⟩
            exact ⟨text :: texts, rfl⟩
          · rintro ⟨_ | ⟨_, texts⟩, same⟩
            · contradiction
            · exact ⟨texts, (List.cons.inj same).2⟩

theorem filterMap_textOf? (texts : List String) :
    (texts.map Value.string).filterMap textOf? = texts := by
  simp [List.filterMap_map, Function.comp_def, textOf?]

theorem optionalTexts_eq_ok_iff :
    optionalTexts field = .ok texts ↔
      (present? field).getD (.sequence []) = .sequence (texts.map .string) := by
  rcases field with _ | value
  · simp [optionalTexts, present?, eq_comm]
  cases value with
  | sequence items =>
      simp only [optionalTexts, present?, Option.getD_some, Value.sequence.injEq]
      cases faults : itemFaults 0 items with
      | nil =>
          obtain ⟨found, rfl⟩ := itemFaults_eq_nil_iff.mp faults
          simp only [filterMap_textOf?, Except.ok.injEq]
          constructor
          · exact congrArg (List.map Value.string)
          · intro same
            rw [← filterMap_textOf? found, same, filterMap_textOf?]
      | cons fault others =>
          simp only [reduceCtorEq, false_iff]
          rintro rfl
          rw [itemFaults_eq_nil_iff.mpr ⟨texts, rfl⟩] at faults
          contradiction
  | null => simp [optionalTexts, present?, eq_comm]
  | string | bool | integer | float | mapping | tagged => simp [optionalTexts, present?]

/-! ## All fields -/

/-- A definition has what a mapping declares. -/
structure IsDeclared (entries : List (Value × Value)) (definition : Definition) : Prop where
  name : declared? entries "name" = some (.string definition.name)
  role : declared? entries "role" = some (.string definition.role)
  prompt : declared? entries "systemPrompt" = some (.string definition.systemPrompt)
  /-- Only an emoji has a default. -/
  emoji : ∃ emoji : Option String, declared? entries "emoji" = emoji.map .string ∧
    definition.emoji = emoji.getD defaultEmoji
  description : declared? entries "description" = definition.description.map .string
  /-- A list that is not declared has no items. -/
  rules : (declared? entries "rules").getD (.sequence []) = .sequence (definition.rules.map .string)
  tools : (declared? entries "tools").getD (.sequence []) = .sequence (definition.tools.map .string)

/-- A mapping is a definition exactly if the definition has what the mapping declares and its
required texts are long enough. -/
theorem ofEntries_eq_ok_iff :
    ofEntries entries = .ok definition ↔ IsDeclared entries definition ∧
      1 ≤ definition.name.length ∧ 1 ≤ definition.role.length ∧
      minimumPrompt ≤ definition.systemPrompt.length := by
  constructor
  · intro valid
    simp only [ofEntries] at valid
    split at valid
    case h_2 => contradiction
    case h_1 name role prompt emoji description rules tools =>
      obtain rfl := Except.ok.inj valid
      obtain ⟨name, long_name⟩ := requiredText_eq_ok_iff.mp name
      obtain ⟨role, long_role⟩ := requiredText_eq_ok_iff.mp role
      obtain ⟨prompt, long_prompt⟩ := requiredText_eq_ok_iff.mp prompt
      refine ⟨?_, long_name, long_role, long_prompt⟩
      exact
        { name := name
          role := role
          prompt := prompt
          emoji := ⟨_, optionalText_eq_ok_iff.mp emoji, rfl⟩
          description := optionalText_eq_ok_iff.mp description
          rules := optionalTexts_eq_ok_iff.mp rules
          tools := optionalTexts_eq_ok_iff.mp tools }
  · rintro ⟨declared, long_name, long_role, long_prompt⟩
    obtain ⟨emoji, given, default⟩ := declared.emoji
    simp only [ofEntries, requiredText_eq_ok_iff.mpr ⟨declared.name, long_name⟩,
      requiredText_eq_ok_iff.mpr ⟨declared.role, long_role⟩,
      requiredText_eq_ok_iff.mpr ⟨declared.prompt, long_prompt⟩,
      optionalText_eq_ok_iff.mpr given, optionalText_eq_ok_iff.mpr declared.description,
      optionalTexts_eq_ok_iff.mpr declared.rules, optionalTexts_eq_ok_iff.mpr declared.tools,
      ← default]

/-- A value is a definition if it is a mapping that is one. -/
theorem ofValue_eq_ok_iff {value : Value} :
    ofValue value = .ok definition ↔
      ∃ entries, value.untagged = .mapping entries ∧ ofEntries entries = .ok definition := by
  unfold ofValue
  cases value.untagged <;> simp

end AgentKit.Definition
