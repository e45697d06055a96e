/-
# Settings of a project

The settings record the choices of the last installation, so that it can be
repeated. Names of targets, languages and profiles are kept as texts: a settings
file may name some that are not known, and it is read all the same; they are
reported as warnings.
-/

import AgentKit.Locale
import AgentKit.StackProfile
import AgentKit.Target
import AgentKit.Timestamp

namespace AgentKit

/-- The choices of the last installation. `globalRules` are the rules of the user
alone, without the rules of the profile. -/
structure Settings where
  version : UInt32
  locale : String
  tools : List String
  globalRules : Option String
  profile : Option String
  toolkitVersion : Option String
  lastInstall : Option Timestamp
  deriving DecidableEq, Repr

namespace Settings

/-- The version of settings that name none. -/
def defaultVersion : UInt32 := 1

/-- The settings of a project where nothing was chosen. -/
def default : Settings where
  version := defaultVersion
  locale := Locale.english.key
  tools := []
  globalRules := none
  profile := none
  toolkitVersion := none
  lastInstall := none

/-- The language that the settings choose. -/
def resolvedLocale (settings : Settings) : Locale :=
  Locale.resolve settings.locale

/-- The known targets among the recorded tools, in their order. -/
def targets (settings : Settings) : List Target :=
  settings.tools.filterMap Target.ofText?

/-- Record an installation. The version of the settings stays. -/
def stamp (settings : Settings) (targets : List Target) (locale : Locale)
    (globalRules profile : Option String) (toolkitVersion : String) (time : Timestamp) :
    Settings :=
  { settings with
    tools := targets.map Target.key
    locale := locale.key
    globalRules := globalRules
    profile := profile
    toolkitVersion := some toolkitVersion
    lastInstall := some time }

/-- Something in the settings that is not known. -/
inductive Warning where
  | unknownTool (tool : String)
  | unknownProfile (profile : String)
  | inexactLocale (requested : String) (resolved : Locale)
  deriving DecidableEq, Repr

/-- The key of the weight of a warning. An unknown profile prevents an
installation. -/
def Warning.level : Warning → String
  | .unknownTool _ | .inexactLocale _ _ => "warning"
  | .unknownProfile _ => "error"

/-- The wording of a warning. -/
def Warning.message : Warning → String
  | .unknownTool tool => "unknown tool '" ++ tool ++ "' in tools (it will be skipped)"
  | .unknownProfile profile => "unknown stack profile '" ++ profile ++ "'"
  | .inexactLocale requested resolved =>
    "locale '" ++ requested ++ "' resolves to '" ++ resolved.key ++ "'"

/-- The warnings about the tools of settings. -/
def toolWarnings (settings : Settings) : List Warning :=
  (settings.tools.filter fun tool => (Target.ofText? tool).isNone).map .unknownTool

/-- The warning about the profile of settings, if there is reason for one. -/
def profileWarnings (settings : Settings) : List Warning :=
  (settings.profile.toList.filter fun profile => (StackProfile.find? profile).isNone).map
    .unknownProfile

/-- The warning about the language of settings, if there is reason for one. -/
def localeWarnings (settings : Settings) : List Warning :=
  if settings.resolvedLocale.key = settings.locale then []
  else [.inexactLocale settings.locale settings.resolvedLocale]

/-- All warnings about settings. -/
def warnings (settings : Settings) : List Warning :=
  settings.toolWarnings ++ settings.profileWarnings ++ settings.localeWarnings

end Settings

end AgentKit
