/-
# Reading settings

Settings are read by field: where a text is wanted, every scalar is taken by its
letters, so that a version `1.0` or a word like `yes` needs no quotes. Absent fields
have defaults, fields that are not known do not matter, and a known field must not
be given twice.
-/

import AgentKit.Settings
import AgentKit.Timestamp.Reading
import AgentKit.Yaml.Value.Reading

namespace AgentKit.Settings

open AgentKit.Yaml

/-- A scalar of a document. -/
structure ScalarNode where
  tag : Option Tag
  style : ScalarStyle
  text : List Char

/-- A node that is not an alias: the node itself, or the one that it stands for. -/
def resolveAlias (document : LinkedDocument) (node : NumberedNode) :
    Except Error NumberedNode :=
  match node with
  | .alias target =>
    match document.target target with
    | some node => .ok node
    | none => .error .unknownAlias
  | node => .ok node

/-- The scalar that a node is. -/
def scalarOf (document : LinkedDocument) (node : NumberedNode) : Except Error ScalarNode := do
  match ← resolveAlias document node with
  | .scalar properties style text => .ok ⟨properties.tag, style, text⟩
  | _ => .error .wrongKind

/-- The letters of a scalar, whatever they mean. -/
def readText (document : LinkedDocument) (node : NumberedNode) : Except Error String := do
  .ok (String.ofList (← scalarOf document node).text)

/-- Whether a scalar stands for no value at all: a plain null or an empty plain
scalar. A scalar with the tag of null must be a null. -/
def isAbsent (scalar : ScalarNode) : Except Error Bool :=
  if scalar.style ≠ .plain then .ok false
  else
    match scalar.tag with
    | none => .ok (scalar.text.isEmpty || isNullWord scalar.text)
    | some tag =>
      if tag = standardTag "null" then
        if isNullWord scalar.text then .ok true else .error .badScalar
      else .ok false

/-- An optional text. -/
def readOptionalText (document : LinkedDocument) (node : NumberedNode) :
    Except Error (Option String) := do
  let scalar ← scalarOf document node
  if ← isAbsent scalar then .ok none else .ok (some (String.ofList scalar.text))

/-- A point in time, or none. -/
def readOptionalTime (document : LinkedDocument) (node : NumberedNode) :
    Except Error (Option Timestamp) := do
  match ← readOptionalText document node with
  | none => .ok none
  | some text =>
    match Timestamp.ofText? text with
    | some time => .ok (some time)
    | none => .error .badScalar

/-- Whether a scalar may be an integer: it is plain, or a literal block with the tag
of integers. -/
def mayBeInteger (scalar : ScalarNode) : Bool :=
  scalar.style = .plain || (scalar.style = .literal && scalar.tag = some (standardTag "int"))

/-- A version: an unsigned integer of 32 bits, in any notation. -/
def readVersion (document : LinkedDocument) (node : NumberedNode) : Except Error UInt32 := do
  let scalar ← scalarOf document node
  if !mayBeInteger scalar then .error .wrongKind
  else
    match unsignedOf? scalar.text with
    | some value =>
      if value < UInt32.size then .ok (UInt32.ofNat value) else .error .badScalar
    | none => .error .wrongKind

/-- A list of texts. An empty plain scalar is an empty list. -/
def readTexts (document : LinkedDocument) (node : NumberedNode) :
    Except Error (List String) := do
  match ← resolveAlias document node with
  | .sequence _ items => items.mapM (readText document)
  | .scalar _ .plain [] => .ok []
  | _ => .error .wrongKind

/-- The nodes of a mapping with the texts of their keys. -/
abbrev Fields := List (String × NumberedNode)

/-- The fields of a mapping. An empty plain scalar has none. -/
def fieldsOf (document : LinkedDocument) : NumberedNode → Except Error Fields
  | .mapping _ entries =>
    entries.mapM fun (key, value) => do .ok (← readText document key, value)
  | .scalar _ .plain [] => .ok []
  | _ => .error .wrongKind

/-- The value of a field, or a default where the field is absent. The field must not
be given twice. -/
def readField {α : Type} (fields : Fields) (key : String) (absent : α)
    (read : NumberedNode → Except Error α) : Except Error α :=
  match fields.filter (·.1 == key) with
  | [] => .ok absent
  | [(_, node)] => read node
  | _ => .error .duplicateKey

/-- The settings that a document writes. -/
def ofDocument (document : LinkedDocument) : Except Error Settings := do
  let fields ← fieldsOf document document.root
  .ok
    { version := ← readField fields "version" default.version (readVersion document)
      locale := ← readField fields "locale" default.locale (readText document)
      tools := ← readField fields "tools" default.tools (readTexts document)
      globalRules := ← readField fields "global_rules" none (readOptionalText document)
      profile := ← readField fields "profile" none (readOptionalText document)
      toolkitVersion := ← readField fields "toolkit_version" none (readOptionalText document)
      lastInstall := ← readField fields "last_install" none (readOptionalTime document) }

/-- The settings that a text writes. A text without a document leaves everything at
its default. -/
def ofText (text : String) : Except Error Settings := do
  match ← documentOf text with
  | some document => ofDocument document
  | none => .ok default

end AgentKit.Settings
