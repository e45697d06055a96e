/-
# Rosters

A roster is what loading definitions yields: for every definition file, in the
order of the names, an agent or the reason for which the file was skipped. Each
file can be replaced by one of the same name in the directory of overrides. No two
agents of a roster have one slug: the first file that yields an agent keeps it.
-/

import AgentKit.Agent
import AgentKit.Definition.Bundled
import AgentKit.Definition.Validation
import AgentKit.Failure
import AgentKit.Files.Operations
import AgentKit.Locale
import AgentKit.RuleText
import AgentKit.Yaml.Value.Reading

namespace AgentKit

/-- Where default definitions come from. -/
inductive DefinitionSource where
  /-- The bundled definitions. -/
  | bundled
  /-- The files of a directory. -/
  | directory (path : Path)
  deriving DecidableEq, Repr

/-- What is loaded, and with which rules agents are composed. -/
structure LoadRequest where
  defaults : DefinitionSource
  overrides : Option Path
  locale : Locale
  globalRules : Option String
  deriving DecidableEq, Repr

/-- The reason for which a definition file is skipped. -/
inductive SkipReason where
  /-- The file cannot be read. -/
  | unreadable (fault : Files.Fault)
  /-- The text of the file is refused. -/
  | malformed (error : Yaml.Error)
  /-- The definition has issues. -/
  | invalid (issues : List Definition.Issue)
  /-- An earlier file has yielded an agent with the same slug. -/
  | slugTaken (slug : String) (first : String)
  deriving DecidableEq, Repr

namespace SkipReason

/-- The word for the kind of a reason. -/
def kind : SkipReason → String
  | .unreadable _ => "Read"
  | .malformed _ => "Parse"
  | .invalid _ => "Invalid"
  | .slugTaken _ _ => "DuplicateSlug"

/-- The wording of a reason. -/
def message : SkipReason → String
  | .unreadable fault => "read failed: " ++ fault.message
  | .malformed error => "invalid YAML: " ++ error.message
  | .invalid issues => Definition.issuesMessage issues
  | .slugTaken slug first => "slug '" ++ slug ++ "' is already used by " ++ first

end SkipReason

/-- What a definition file yields. -/
inductive LoadOutcome where
  | loaded (agent : Agent)
  | skipped (reason : SkipReason)
  deriving DecidableEq, Repr

/-- What definition files yield: their names with the outcomes, in the order of the
names. -/
abbrev Roster := List (String × LoadOutcome)

namespace Roster

/-- The agents of a roster. -/
def agents (roster : Roster) : List Agent :=
  roster.filterMap fun (_, outcome) =>
    match outcome with
    | .loaded agent => some agent
    | .skipped _ => none

/-- The skipped files of a roster, with the reasons. -/
def skipped (roster : Roster) : List (String × SkipReason) :=
  roster.filterMap fun (file, outcome) =>
    match outcome with
    | .loaded _ => none
    | .skipped reason => some (file, reason)

/-- The file that has yielded an agent with a given slug. -/
def fileOf? (roster : Roster) (slug : String) : Option String :=
  (roster.find? fun (_, outcome) =>
    match outcome with
    | .loaded agent => agent.slug == slug
    | .skipped _ => false).map (·.1)

/-- What a file yields after the files of a roster: its agent needs a new slug. -/
def accept (roster : Roster) : Except SkipReason Agent → LoadOutcome
  | .error reason => .skipped reason
  | .ok agent =>
    match roster.fileOf? agent.slug with
    | some first => .skipped (.slugTaken agent.slug first)
    | none => .loaded agent

/-- Accept the results of files, in order, after the files of a roster. -/
def extend (roster : Roster) : List (String × Except SkipReason Agent) → Roster
  | [] => roster
  | (file, result) :: results => extend (roster ++ [(file, roster.accept result)]) results

end Roster

namespace LoadRequest

/-- The directory of overrides, if it is there. -/
def presentOverrides (request : LoadRequest) (tree : Files.Tree) : Option Path :=
  request.overrides.filter tree.isDirectory

/-- The text of a bundled definition. -/
def bundledText (file : String) : Except Files.Fault String :=
  match Definition.bundled.find? (·.name == file) with
  | some definition => .ok definition.text
  | none => .error .notFound

/-- The text of a default definition. -/
def defaultText (request : LoadRequest) (tree : Files.Tree) (file : String) :
    Except Files.Fault String :=
  match request.defaults with
  | .bundled => bundledText file
  | .directory path => tree.readText (path.join file)

/-- The text of a definition and the layer that it comes from: the override, if there
is one, and else the default. -/
def readDefinition (request : LoadRequest) (tree : Files.Tree) (file : String) :
    Except Files.Fault (String × Source) :=
  match request.presentOverrides tree with
  | some directory =>
    if tree.isThere (directory.join file) then
      (tree.readText (directory.join file)).map (·, .local)
    else (request.defaultText tree file).map (·, .default)
  | none => (request.defaultText tree file).map (·, .default)

/-- The agent that a text writes for a file. -/
def compose (request : LoadRequest) (file text : String) (source : Source) :
    Except SkipReason Agent :=
  match Yaml.Value.ofText text with
  | .error error => .error (.malformed error)
  | .ok value =>
    match Definition.ofValue value with
    | .error issues => .error (.invalid issues)
    | .ok definition =>
      let rules :=
        RuleText.compose definition.rules request.locale.languageRule request.globalRules
      .ok (.ofDefinition definition ((Definition.stem? file).getD file) source rules)

/-- The agent of a file, before its slug is compared with others. -/
def agentOf (request : LoadRequest) (tree : Files.Tree) (file : String) :
    Except SkipReason Agent :=
  match request.readDefinition tree file with
  | .error fault => .error (.unreadable fault)
  | .ok (text, source) => request.compose file text source

/-- The names of the default definitions, in any order. -/
def unsortedFiles (request : LoadRequest) (tree : Files.Tree) : Except Failure (List String) :=
  match request.defaults with
  | .bundled => .ok (Definition.bundled.map (·.name))
  | .directory path =>
    if tree.isDirectory path then
      match tree.fileNames path with
      | .ok names => .ok (names.filter fun name => (Definition.stem? name).isSome)
      | .error fault => .error (.files fault)
    else .error (.definitionsNotFound path)

/-- The names of the default definitions, in order. -/
def files (request : LoadRequest) (tree : Files.Tree) : Except Failure (List String) :=
  (request.unsortedFiles tree).map (·.mergeSort fun a b => a ≤ b)

/-- Load all definitions. -/
def load (request : LoadRequest) (tree : Files.Tree) : Except Failure Roster :=
  (request.files tree).map fun files =>
    Roster.extend [] (files.map fun file => (file, request.agentOf tree file))

end LoadRequest

end AgentKit
