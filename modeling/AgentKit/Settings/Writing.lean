/-
# Writing settings

Settings are written as a mapping of fields in a fixed order. Fields without a
value are left out, and a list without items is written in brackets.
-/

import AgentKit.Settings
import AgentKit.Yaml.Scalar.Writing

namespace AgentKit.Settings

open AgentKit.Yaml

/-- A line with a field and a text. -/
def writeField (key : String) (text : String) : List Char :=
  endLine (key.toList ++ [':', ' '] ++ writeScalar text.toList)

/-- A line with a field and a text, or nothing. -/
def writeOptional (key : String) (text : Option String) : List Char :=
  match text with
  | some text => writeField key text
  | none => []

/-- A line with an item of a list. -/
def writeItem (text : String) : List Char :=
  endLine (['-', ' '] ++ writeScalar text.toList)

/-- The lines of a field with a list of texts. -/
def writeList (key : String) (items : List String) : List Char :=
  if items.isEmpty then key.toList ++ [':', ' ', '[', ']', '\n']
  else key.toList ++ [':', '\n'] ++ items.flatMap writeItem

/-- A line with a field and a number. -/
def writeNumber (key : String) (value : Nat) : List Char :=
  key.toList ++ [':', ' '] ++ Nat.toDigits 10 value ++ ['\n']

/-- The text of settings. -/
def toText (settings : Settings) : String :=
  String.ofList <|
    writeNumber "version" settings.version.toNat ++
      writeField "locale" settings.locale ++
      writeList "tools" settings.tools ++
      writeOptional "global_rules" settings.globalRules ++
      writeOptional "profile" settings.profile ++
      writeOptional "toolkit_version" settings.toolkitVersion ++
      writeOptional "last_install" (settings.lastInstall.map Timestamp.toText)

end AgentKit.Settings
