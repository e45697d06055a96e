/-
# Requests

A command line that is understood makes a request: to show help or the version, or to
run a command. Switches that are understood everywhere count wherever they are given;
what is given for the command comes first, then what is given before it, then the
environment.
-/

import AgentKit.CommandLine.Reading

namespace AgentKit

/-- A command with its choices. -/
inductive Command where
  | install (choice : Choice)
  | upgrade (options : LoadOptions)
  | list (options : LoadOptions)
  | targets
  | profiles
  | view
  deriving DecidableEq, Repr

namespace CommandLine

/-- A command to run, for a project whose root may be given, with a report in lines or
as a JSON document. -/
structure Invocation where
  root : Option Path
  json : Bool
  command : Command
  deriving DecidableEq, Repr

/-- What a command line asks for. Help and the version may be asked for of one
command. -/
inductive Request where
  | help (verb : Option Verb)
  | version (verb : Option Verb)
  | refused (verb : Option Verb) (refusal : Refusal)
  | run (invocation : Invocation)
  deriving DecidableEq, Repr

/-- The request of a reading that ends before the last word. -/
def Stop.request (verb : Option Verb) : Stop → Request
  | .help => .help verb
  | .version => .version verb
  | .refused refusal => .refused verb refusal

namespace Given

/-- The choices about what is loaded. -/
def loadOptions (given : Given) : LoadOptions where
  locale := given.text? .locale
  definitions := given.text? .definitions

/-- The choices for an installation. -/
def choice (given : Given) : Choice where
  tools := given.texts .tool
  rules := given.text? .rules
  rulesFile := given.text? .rulesFile
  profile := given.text? .profile
  loading := given.loadOptions

/-- The command that a name and the switches after it make. -/
def command (given : Given) : Verb → Command
  | .install => .install given.choice
  | .upgrade => .upgrade given.loadOptions
  | .list => .list given.loadOptions
  | .targets => .targets
  | .profiles => .profiles
  | .view => .view

/-- Check that no switch is missing that a command needs. -/
def complete (given : Given) (verb : Verb) : Except Stop Unit :=
  if verb = .install && !given.mentions .tool then .error (.refused (.missing .tool))
  else .ok ()

end Given

/-- The switches that are given for a command, which is followed by some words, and
those that the environment adds. -/
def readVerb (environment : Environment) (verb : Verb) (words : List String) :
    Except Stop (Given × Given) := do
  let switches := Switch.understoodBy (some verb)
  match ← Progress.start.readWords switches words with
  | (_, word :: _) => .error (.refused (.unexpected word))
  | (progress, []) =>
    let given ← progress.settle
    let all ← given.recordAllFrom environment switches
    given.complete verb
    .ok (given, all)

/-- The invocation of a command: `before` and `after` are given before and after its
name, and `all` is what is given after it or comes from the environment. -/
def invocationOf (verb : Verb) (before after all : Given) : Invocation where
  root := ((after.text? .root).or (before.text? .root)).or (all.text? .root)
  json := before.mentions .json || after.mentions .json
  command := all.command verb

/-- The request of a command line with a command. What was read before its name is
settled last. -/
def requestOf (environment : Environment) (before : Progress) (verb : Verb)
    (words : List String) : Request :=
  match readVerb environment verb words with
  | .error stop => stop.request (some verb)
  | .ok (after, all) =>
    match before.settle with
    | .error stop => stop.request none
    | .ok given =>
      match given.recordFrom environment .root with
      | .error stop => stop.request none
      | .ok _ => .run (invocationOf verb given after all)

/-- A text that is not empty. -/
def nonEmpty (text : Option String) : Option String :=
  text.filter (!·.isEmpty)

/-- What the environment chooses where there are no switches to choose it. Here an
empty text is no choice. -/
def Environment.loadOptions (environment : Environment) : LoadOptions where
  locale := nonEmpty environment.locale
  definitions := nonEmpty environment.definitions

/-- The request of a command line without a command. -/
def requestWithout (environment : Environment) (progress : Progress) : Except Stop Request := do
  let given ← progress.settle
  let all ← given.recordFrom environment .root
  if given.mentions .upgrade then
    .ok <| .run
      { root := all.text? .root
        json := given.mentions .json
        command := .upgrade environment.loadOptions }
  else .error .help

/-- The request for help about what the words behind the word `help` name. -/
def helpAbout : List String → Request
  | [] => .help none
  | [name] =>
    if name = "help" then .help none
    else
      match Verb.ofName? name with
      | some verb => .help (some verb)
      | none => .refused none (.unexpected name)
  | _ :: word :: _ => .refused none (.unexpected word)

/-- What a command line asks for. -/
def Request.ofWords (environment : Environment) (words : List String) : Request :=
  match Progress.start.readWords (Switch.understoodBy none) words with
  | .error stop => stop.request none
  | .ok (progress, []) =>
    match requestWithout environment progress with
    | .error stop => stop.request none
    | .ok request => request
  | .ok (progress, word :: words) =>
    if word = "help" then helpAbout words
    else
      match Verb.ofName? word with
      | some verb => requestOf environment progress verb words
      | none => .refused none (.unexpected word)

end CommandLine

end AgentKit
