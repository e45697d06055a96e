/-
# Switches

Switches are the words of a command line that begin with hyphens. Some are understood
before and after the name of a command, others by certain commands only. A switch
that takes a text may also get it from a variable of the environment.
-/

import AgentKit.Files.Path

namespace AgentKit.CommandLine

/-- A command, as it is named on the command line. -/
inductive Verb where
  | install
  | upgrade
  | list
  | targets
  | profiles
  | view
  deriving DecidableEq, Repr

namespace Verb

/-- The commands, in the order in which they are listed. -/
def all : List Verb := [.install, .upgrade, .list, .targets, .profiles, .view]

/-- The name of a command. -/
def name : Verb → String
  | .install => "install"
  | .upgrade => "upgrade"
  | .list => "list"
  | .targets => "targets"
  | .profiles => "profiles"
  | .view => "view"

/-- The command with a given name. -/
def ofName? (name : String) : Option Verb :=
  all.find? (·.name == name)

end Verb

/-- A switch. -/
inductive Switch where
  | root
  | json
  | verbose
  | upgrade
  | tool
  | rules
  | rulesFile
  | profile
  | locale
  | definitions
  | help
  | version
  deriving DecidableEq, Repr

namespace Switch

/-- The name of a switch, which follows two hyphens. -/
def name : Switch → String
  | .root => "root"
  | .json => "json"
  | .verbose => "verbose"
  | .upgrade => "upgrade"
  | .tool => "tool"
  | .rules => "rules"
  | .rulesFile => "rules-file"
  | .profile => "profile"
  | .locale => "locale"
  | .definitions => "definitions"
  | .help => "help"
  | .version => "version"

/-- The letter of a switch, which follows one hyphen. -/
def letter? : Switch → Option Char
  | .json => some 'j'
  | .verbose => some 'v'
  | .tool => some 't'
  | .help => some 'h'
  | .version => some 'V'
  | _ => none

/-- Whether a switch takes a text. -/
def takesText : Switch → Bool
  | .root | .tool | .rules | .rulesFile | .profile | .locale | .definitions => true
  | _ => false

/-- Whether the text of a switch is a path. A path has at least one character. -/
def isPath : Switch → Bool
  | .root | .rulesFile | .definitions => true
  | _ => false

/-- Whether a switch may be given more than once. -/
def isRepeatable (switch : Switch) : Bool :=
  switch = .tool

/-- The switches that are understood everywhere. -/
def common : List Switch := [.root, .json, .verbose, .help, .version]

/-- The switches about what is loaded. -/
def loading : List Switch := [.locale, .definitions]

/-- The switches that are understood after the name of a command, or before any. -/
def understoodBy : Option Verb → List Switch
  | none => .upgrade :: common
  | some .install => [.tool, .rules, .rulesFile, .profile] ++ loading ++ common
  | some .upgrade | some .list => loading ++ common
  | some .targets | some .profiles | some .view => common

end Switch

/-- The texts that the environment holds for switches. An empty text is a text. -/
structure Environment where
  root : Option String
  locale : Option String
  definitions : Option String
  deriving DecidableEq, Repr

namespace Environment

/-- The name of the variable that holds the text of a switch. -/
def variableName? : Switch → Option String
  | .root => some "SDD_ROOT"
  | .locale => some "SDD_LOCALE"
  | .definitions => some "SDD_DEFINITIONS"
  | _ => none

/-- The text that the environment holds for a switch. -/
def text? (environment : Environment) : Switch → Option String
  | .root => environment.root
  | .locale => environment.locale
  | .definitions => environment.definitions
  | _ => none

end Environment

end AgentKit.CommandLine
