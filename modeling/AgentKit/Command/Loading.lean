/-
# What commands load

Commands load the settings of the project and the agents that its definitions yield.
The language and the directory of definitions can be chosen for one run; what is not
chosen comes from the settings, and the bundled definitions are used where there is
no directory.
-/

import AgentKit.Command.Run
import AgentKit.Roster
import AgentKit.Settings.Storage

namespace AgentKit

/-- The choices for one run about what is loaded. -/
structure LoadOptions where
  locale : Option String
  definitions : Option Path
  deriving DecidableEq, Repr

/-- The settings of the project, if it has any. -/
def loadSettings (tree : Files.Tree) (root : Path) : Except Trouble (Option Settings) :=
  match Settings.load tree root with
  | .ok settings => .ok settings
  | .error failure => .error ⟨some .loadingSettings, failure⟩

/-- The rules that all agents share: those of the user, then those of a profile. -/
def sharedRules (rules profile : Option String) : Except Failure (Option String) :=
  match profile with
  | none => .ok (RuleText.join rules.toList)
  | some key =>
    match StackProfile.find? key with
    | some profile => .ok (RuleText.join (rules.toList ++ [profile.rulesText]))
    | none => .error (.unknownProfile key)

namespace LoadOptions

/-- The language of a run: the chosen one, or that of the settings, or English. -/
def localeWith (options : LoadOptions) (settings : Option Settings) : Locale :=
  match options.locale, settings with
  | some requested, _ => Locale.resolve requested
  | none, some settings => settings.resolvedLocale
  | none, none => .english

/-- Where the default definitions of a run come from. -/
def source (options : LoadOptions) : DefinitionSource :=
  match options.definitions with
  | some path => .directory path
  | none => .bundled

/-- What a run loads for the project below a root. -/
def request (options : LoadOptions) (root : Path) (locale : Locale)
    (globalRules : Option String) : LoadRequest where
  defaults := options.source
  overrides := some (root.join overridesDirectory)
  locale := locale
  globalRules := globalRules

/-- Load the agents of the project below a root. -/
def loadRoster (options : LoadOptions) (root : Path) (locale : Locale)
    (globalRules : Option String) (tree : Files.Tree) : Except Trouble Roster :=
  match (options.request root locale globalRules).load tree with
  | .ok roster => .ok roster
  | .error failure => .error ⟨some .loadingDefinitions, failure⟩

end LoadOptions

/-- The agents of a project and the language in which they are shown. -/
structure Listing where
  locale : Locale
  roster : Roster

/-- The agents that an installation would use, with the rules of the settings. -/
def LoadOptions.list (options : LoadOptions) (root : Path) (tree : Files.Tree) :
    Except Trouble Listing := do
  let settings ← loadSettings tree root
  let locale := options.localeWith settings
  match sharedRules (settings.bind (·.globalRules)) (settings.bind (·.profile)) with
  | .error failure => .error ⟨none, failure⟩
  | .ok rules =>
    let roster ← options.loadRoster root locale rules tree
    .ok ⟨locale, roster⟩

end AgentKit
