/-
# Reading settings back

Settings are read back from their text as they were, whatever texts are in them: the fields
are written as entries of one mapping, each under a key of its own, and every text is written
in a style in which it is read as itself. A text that is there is never taken for one that is
not, because a text that means nothing is written in quotes. Only the time of the last
installation has to lie in the years that are written with four digits.

What is kept in a project is what its text is, so settings that are kept are loaded again as
they were. They can be kept wherever the root is there and nothing is in the way.
-/

import AgentKit.Proofs.Files.Writing
import AgentKit.Proofs.Settings.Storage
import AgentKit.Proofs.Timestamp.Reading
import AgentKit.Proofs.Yaml.Entries
import AgentKit.Proofs.Yaml.Scalar.Number

namespace AgentKit.Settings

open Yaml
open Files (Tree)

variable {settings : Settings} {document : LinkedDocument} {root : Path} {before after : Tree}

/-! ## Entries -/

/-- A text as it is written in settings. -/
def textLine (text : String) : ScalarLine where
  written := endLine (writeScalar text.toList)
  style := styleOf text.toList
  text := text.toList
  isScalarLine := isScalarLine_writeScalar text.toList

/-- A number as it is written in settings. -/
def numberLine (n : Nat) : ScalarLine where
  written := Nat.toDigits 10 n ++ ['\n']
  style := .plain
  text := Nat.toDigits 10 n
  isScalarLine := isScalarLine_toDigits n

/-- An entry for a text, if it is there. -/
def optionalEntry (key : String) (isKey : IsKey key.toList) (text : Option String) : List Entry :=
  text.toList.map fun text => ⟨key.toList, .scalar (textLine text), isKey⟩

/-- The entries that settings are written with. -/
def entries (settings : Settings) : List Entry :=
  ⟨"version".toList, .scalar (numberLine settings.version.toNat), by decide⟩ ::
    ⟨"locale".toList, .scalar (textLine settings.locale), by decide⟩ ::
    ⟨"tools".toList, .list (settings.tools.map textLine), by decide⟩ ::
    (optionalEntry "global_rules" (by decide) settings.globalRules ++
      optionalEntry "profile" (by decide) settings.profile ++
      optionalEntry "toolkit_version" (by decide) settings.toolkitVersion ++
      optionalEntry "last_install" (by decide) (settings.lastInstall.map Timestamp.toText))

theorem writeField_eq (key text : String) :
    writeField key text = key.toList ++ ':' :: ' ' :: (textLine text).written := by
  rw [writeField, endLine_append _ (writeScalar_ne_nil _)]
  simp [textLine]

theorem writeItem_eq (text : String) : writeItem text = (textLine text).item := by
  rw [writeItem, endLine_append _ (writeScalar_ne_nil _)]
  rfl

theorem lines_optionalEntry (key : String) (isKey : IsKey key.toList) (text : Option String) :
    (optionalEntry key isKey text).flatMap Entry.lines = writeOptional key text := by
  cases text with
  | none => rfl
  | some text =>
      rw [writeOptional, writeField_eq]
      simp [optionalEntry, Entry.lines, Part.written]

theorem lines_tools (items : List String) (isKey : IsKey "tools".toList) :
    Entry.lines ⟨"tools".toList, .list (items.map textLine), isKey⟩ = writeList "tools" items := by
  cases items with
  | nil => rfl
  | cons item items =>
      rw [writeList, if_neg (by simp), funext writeItem_eq]
      simp [Entry.lines, Part.written, List.flatMap_map]

/-- The text of settings consists of their entries. -/
theorem toText_eq (settings : Settings) :
    settings.toText = String.ofList (settings.entries.flatMap Entry.lines) := by
  rw [toText, entries]
  congr 1
  simp only [List.flatMap_cons, List.flatMap_append, lines_optionalEntry, lines_tools,
    writeField_eq, List.append_assoc]
  rfl

theorem documentOf_toText (settings : Settings) :
    documentOf settings.toText =
      .ok (some ⟨.mapping .none ((settings.entries.map Entry.toPair).map Pair.nodes), []⟩) := by
  rw [toText_eq, entries]
  exact documentOf_entries _ _

/-! ## Fields -/

theorem scalarOf_node (leaf : Leaf) :
    scalarOf document leaf.node = .ok ⟨none, leaf.style, leaf.text⟩ := rfl

theorem readText_textLine (text : String) : readText document (textLine text).node = .ok text := by
  simp [readText, scalarOf_node, textLine, bind, Except.bind]

theorem readTexts_textLines (texts : List String) :
    readTexts document (Part.list (texts.map textLine)).held.node = .ok texts := by
  have reads : ((texts.map textLine).map fun line => line.toLeaf.node).mapM (readText document) =
      .ok texts := by
    induction texts with
    | nil => rfl
    | cons text texts ih =>
        simp only [List.map_cons, List.mapM_cons, readText_textLine, ih, bind, Except.bind]
        rfl
  simpa [readTexts, Part.held, Held.node, resolveAlias, Function.comp_def, bind, Except.bind]
    using reads

/-- A text that is there is not taken for one that is not. -/
theorem readOptionalText_textLine (text : String) :
    readOptionalText document (textLine text).node = .ok (some text) := by
  have there : isAbsent ⟨none, styleOf text.toList, text.toList⟩ = .ok false := by
    unfold isAbsent
    split
    · rfl
    · next plain =>
      have means := meaningOf_of_styleOf_eq_plain (not_not.mp plain)
      unfold meaningOf at means
      split at means
      · contradiction
      · next filled => simpa using filled
  simp [readOptionalText, scalarOf_node, textLine, there, bind, Except.bind]

theorem readOptionalTime_textLine {time : Timestamp} (proper : time.IsProper) :
    readOptionalTime document (textLine time.toText).node = .ok (some time) := by
  simp [readOptionalTime, readOptionalText_textLine, Timestamp.ofText?_toText proper, bind,
    Except.bind]

theorem readVersion_numberLine (version : UInt32) :
    readVersion document (numberLine version.toNat).node = .ok version := by
  have bounded : version.toNat < UInt32.size := version.toNat_lt
  simp [readVersion, scalarOf_node, numberLine, mayBeInteger, unsignedOf?_toDigits, bounded, bind,
    Except.bind]

/-- The field of a text, if it is there. -/
def optionalTextField (key : String) (text : Option String) : Fields :=
  text.toList.map fun text => (key, (textLine text).node)

/-- The fields of settings. -/
def fields (settings : Settings) : Fields :=
  ("version", (numberLine settings.version.toNat).node) ::
    ("locale", (textLine settings.locale).node) ::
    ("tools", (Part.list (settings.tools.map textLine)).held.node) ::
    (optionalTextField "global_rules" settings.globalRules ++
      optionalTextField "profile" settings.profile ++
      optionalTextField "toolkit_version" settings.toolkitVersion ++
      optionalTextField "last_install" (settings.lastInstall.map Timestamp.toText))

theorem fieldsOf_pairs (pairs : List Pair) :
    fieldsOf document (.mapping .none (pairs.map Pair.nodes)) =
      .ok (pairs.map fun pair => (String.ofList pair.key, pair.held.node)) := by
  rw [fieldsOf]
  induction pairs with
  | nil => rfl
  | cons pair pairs ih =>
      rw [List.map_cons, List.mapM_cons, ih]
      rfl

theorem map_entries (settings : Settings) :
    (settings.entries.map Entry.toPair).map
        (fun pair => (String.ofList pair.key, pair.held.node)) =
      settings.fields := by
  simp [entries, fields, optionalEntry, optionalTextField, Entry.toPair, Part.held, Held.node,
    Function.comp_def]

theorem filter_optionalTextField (key wanted : String) (text : Option String) :
    (optionalTextField key text).filter (·.1 == wanted) =
      if key = wanted then optionalTextField key text else [] := by
  by_cases same : key = wanted <;> cases text <;> simp [optionalTextField, same]

theorem readField_single {α : Type} {fields : Fields} {key : String} {node : NumberedNode}
    (found : fields.filter (·.1 == key) = [(key, node)]) (absent : α)
    (read : NumberedNode → Except Error α) : readField fields key absent read = read node := by
  rw [readField, found]

theorem readField_optional {α : Type} {fields : Fields} {key : String} {text : Option String}
    (found : fields.filter (·.1 == key) = optionalTextField key text) (absent : α)
    (read : NumberedNode → Except Error α) :
    readField fields key absent read =
      text.elim (.ok absent) fun text => read (textLine text).node := by
  rw [readField, found]
  cases text <;> rfl

/-- Every field is found under its key. -/
theorem readFields (proper : ∀ time ∈ settings.lastInstall, time.IsProper)
    (document : LinkedDocument) :
    readField settings.fields "version" default.version (readVersion document) =
        .ok settings.version ∧
      readField settings.fields "locale" default.locale (readText document) =
        .ok settings.locale ∧
      readField settings.fields "tools" default.tools (readTexts document) = .ok settings.tools ∧
      readField settings.fields "global_rules" none (readOptionalText document) =
        .ok settings.globalRules ∧
      readField settings.fields "profile" none (readOptionalText document) =
        .ok settings.profile ∧
      readField settings.fields "toolkit_version" none (readOptionalText document) =
        .ok settings.toolkitVersion ∧
      readField settings.fields "last_install" none (readOptionalTime document) =
        .ok settings.lastInstall := by
  have optional (text : Option String) :
      (text.elim (.ok none) fun text => readOptionalText document (textLine text).node) =
        .ok text := by
    cases text <;> simp [readOptionalText_textLine]
  have time : ((settings.lastInstall.map Timestamp.toText).elim (.ok none)
      fun text => readOptionalTime document (textLine text).node) = .ok settings.lastInstall := by
    cases last : settings.lastInstall with
    | none => rfl
    | some time => exact readOptionalTime_textLine (proper time last)
  refine ⟨?_, ?_, ?_, ?_, ?_, ?_, ?_⟩
  · exact (readField_single (by simp [fields, filter_optionalTextField]) _ _).trans
      (readVersion_numberLine settings.version)
  · exact (readField_single (by simp [fields, filter_optionalTextField]) _ _).trans
      (readText_textLine settings.locale)
  · exact (readField_single (by simp [fields, filter_optionalTextField]) _ _).trans
      (readTexts_textLines settings.tools)
  · exact (readField_optional (by simp [fields, filter_optionalTextField]) _ _).trans
      (optional settings.globalRules)
  · exact (readField_optional (by simp [fields, filter_optionalTextField]) _ _).trans
      (optional settings.profile)
  · exact (readField_optional (by simp [fields, filter_optionalTextField]) _ _).trans
      (optional settings.toolkitVersion)
  · exact (readField_optional (by simp [fields, filter_optionalTextField]) _ _).trans time

/-- Settings are read back from their text. -/
theorem ofText_toText (proper : ∀ time ∈ settings.lastInstall, time.IsProper) :
    ofText settings.toText = .ok settings := by
  obtain ⟨version, locale, tools, rules, profile, toolkit, time⟩ :=
    readFields proper ⟨.mapping .none ((settings.entries.map Entry.toPair).map Pair.nodes), []⟩
  simp only [ofText, documentOf_toText, bind, Except.bind, ofDocument, fieldsOf_pairs,
    map_entries, version, locale, tools, rules, profile, toolkit, time]

/-! ## The settings file -/

/-- Settings that were kept are loaded as they were. -/
theorem load_of_save (proper : ∀ time ∈ settings.lastInstall, time.IsProper)
    (saved : settings.save root before = (after, .ok ())) :
    load after root = .ok (some settings) := by
  obtain ⟨directory, lies⟩ := directoryOf_artifact root
  have parent : (root.join file).parent? = some directory := lies settings
  have written : before.writeAtomically (root.join file) (.text settings.toText) =
      (after, .ok ()) := by
    unfold save at saved
    split at saved
    · next done => rw [done, (Prod.mk.inj saved).1]
    · simp at saved
  obtain ⟨ready, -, overwritten⟩ := (Tree.writeAtomically_eq_ok_iff parent).mp written
  obtain ⟨place, leads, written⟩ := Tree.written_of_overwrite overwritten
  have leads' := written.keepsDirectories.target? leads
  have found : after.find? place = some (.file (.text settings.toText)) := by
    rw [written.found, if_pos rfl]
  simp [load, Tree.isThere_of_target? leads', found, Tree.readText_of_target? leads' found,
    ofText_toText proper]

/-- Settings can be kept in a project: its root is there, and nothing is in the way of the
settings file or of its directory. -/
def IsWritable (root : Path) (tree : Tree) : Prop :=
  tree.HasRoom root toolkitDirectory "config.yaml"

theorem save_of_isWritable (writable : IsWritable root before) (settings : Settings) :
    ∃ after, settings.save root before = (after, .ok ()) := by
  obtain ⟨after, written⟩ := writable.writeAtomically (by decide) (by decide) (by decide)
    (by decide) (.text settings.toText)
  rw [join_toolkit] at written
  exact ⟨after, by rw [save, written]⟩

/-- Settings can be kept in a project that can be written to, and are then loaded as they
were. -/
theorem load_save (writable : IsWritable root before)
    (proper : ∀ time ∈ settings.lastInstall, time.IsProper) :
    ∃ after, settings.save root before = (after, .ok ()) ∧
      load after root = .ok (some settings) := by
  obtain ⟨after, saved⟩ := save_of_isWritable writable settings
  exact ⟨after, saved, load_of_save proper saved⟩

/-! ## Settings with all kinds of texts -/

/-- Texts that need every style: several lines with carriage returns, line feeds at the end,
blanks around, a number, the word for null and nothing at all. -/
def variedSettings : Settings where
  version := 4294967295
  locale := " pt-BR "
  tools := ["claude", "1e3", "null", "", "- item: value # no comment"]
  globalRules := some "first\r\nsecond\u2028\n\n"
  profile := some "\n  indented\nlast"
  toolkitVersion := some "0x10"
  lastInstall := some ⟨⟨9999, 12, 31⟩, 23, 59, 60, 120000⟩

/-- A project without settings. -/
def emptyProject : Tree where
  entries := [(["project"], .directory)]
  workingDirectory := []

theorem isWritable_emptyProject : IsWritable "project" emptyProject where
  flaw := by decide
  place := by
    have nothing : emptyProject.find? ["project", toolkitDirectory] = none := by decide
    exact ⟨["project"], rfl, fun content => by simp [nothing], by decide⟩

theorem isProper_variedSettings : ∀ time ∈ variedSettings.lastInstall, time.IsProper := by
  intro time last
  obtain rfl := Option.some.inj last
  exact ⟨by decide, by decide, by decide, by decide, by decide, by decide⟩

theorem load_save_variedSettings :
    IsWritable "project" emptyProject ∧
      (∀ time ∈ variedSettings.lastInstall, time.IsProper) ∧
      ∃ after, variedSettings.save "project" emptyProject = (after, .ok ()) ∧
        load after "project" = .ok (some variedSettings) :=
  ⟨isWritable_emptyProject, isProper_variedSettings,
    load_save isWritable_emptyProject isProper_variedSettings⟩

end AgentKit.Settings
