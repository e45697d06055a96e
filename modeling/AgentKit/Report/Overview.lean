/-
# Reports about overviews

The overview of a project is shown as aligned lines, in English, or as a JSON
document. In the lines a hyphen stands for what is not recorded; in the document such
a field is left out.
-/

import AgentKit.Command.Overview
import AgentKit.Json
import AgentKit.Phrase

namespace AgentKit

/-- A warning as a line. -/
def Settings.Warning.line (warning : Settings.Warning) : String :=
  "[" ++ warning.level ++ "] " ++ warning.message

/-- A warning as a JSON value. -/
def Settings.Warning.document (warning : Settings.Warning) : Json :=
  .object [("level", .string warning.level), ("message", .string warning.message)]

/-- A field of an object with a text, or no field. -/
def Settings.optionalField (key : String) (text : Option String) : List (String × Json) :=
  text.toList.map fun text => (key, .string text)

/-- Settings as a JSON value. -/
def Settings.document (settings : Settings) : Json :=
  .object <|
    optionalField "global_rules" settings.globalRules ++
      optionalField "last_install" (settings.lastInstall.map Timestamp.toText) ++
      [("locale", .string settings.locale)] ++
      optionalField "profile" settings.profile ++
      optionalField "toolkit_version" settings.toolkitVersion ++
      [("tools", .ofStrings settings.tools), ("version", .number settings.version.toNat)]

namespace Overview

/-- Names in a row, or a hyphen where there are none. -/
def row (names : List String) : String :=
  if names.isEmpty then "-" else ", ".intercalate names

/-- The number of lines of a rule text that are not blank. -/
def ruleCount (text : String) : Nat :=
  ((Text.linesOf text).filter (!Text.isBlankText ·)).length

/-- What is shown about the rules of the user. -/
def rulesText (rules : Option String) : String :=
  match rules with
  | some text => toString (ruleCount text) ++ " line(s)"
  | none => "-"

/-- The line with the detected targets. -/
def detectedLine (overview : Overview) : String :=
  "detected:      " ++ row (overview.detected.map (·.key))

/-- The lines that show recorded settings. -/
def settingsLines (settings : Settings) : List String :=
  let locale := settings.resolvedLocale
  ["locale:        " ++ locale.key ++ " (" ++ locale.displayName ++ ")",
   "tools:         " ++ row settings.tools,
   "profile:       " ++ settings.profile.getD "-",
   "global rules:  " ++ rulesText settings.globalRules,
   "last install:  " ++ (settings.lastInstall.map Timestamp.display).getD "-"] ++
    settings.toolkitVersion.toList.map ("sdd version:   " ++ ·)

/-- The lines that show an overview. -/
def lines (overview : Overview) : List String :=
  match overview.settings with
  | none => [Phrase.noSettings.wording .english, overview.detectedLine]
  | some settings =>
    ("root:          " ++ overview.root) :: settingsLines settings ++
      overview.detectedLine :: overview.warnings.map (·.line)

/-- An overview as a JSON document. -/
def document (overview : Overview) : Json :=
  .object
    [("config", (overview.settings.map Settings.document).getD .null),
     ("detected", .ofStrings (overview.detected.map (·.key))),
     ("root", .string overview.root),
     ("warnings", .array (overview.warnings.map (·.document)))]

end Overview

end AgentKit
