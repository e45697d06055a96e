/-
# The choices of an installation

An installation needs at least a list of tools. Rules and a profile that are not
chosen are taken from the settings, so that a later installation of another tool
keeps them. Rules can be given as a text, as a file, or as both.
-/

import AgentKit.Command.Job

namespace AgentKit

/-- The choices for an installation. -/
structure Choice where
  tools : List String
  rules : Option String
  rulesFile : Option Path
  profile : Option String
  loading : LoadOptions
  deriving DecidableEq, Repr

namespace Choice

/-- Whether a text asks for every target. -/
def asksForAll (tool : String) : Bool :=
  Text.lower (Text.trim tool.toList) == "all".toList

/-- A list without what it has mentioned before. -/
def firstMentions : List Target → List Target
  | [] => []
  | target :: targets => target :: (firstMentions targets).filter (· ≠ target)

/-- The target that a text names. -/
def targetOf (tool : String) : Except Failure Target :=
  match Target.ofText? tool with
  | some target => .ok target
  | none => .error (.unknownTarget tool)

/-- The targets that texts name, in the order in which they are first mentioned. -/
def targetsOf (tools : List String) : Except Failure (List Target) :=
  if tools.any asksForAll then .ok Target.all
  else (tools.mapM targetOf).map firstMentions

/-- The text of two parts of which the second begins on a new line. -/
def onNewLine (text : Option String) (addition : String) : String :=
  match text with
  | some text => text ++ "\n" ++ addition
  | none => addition

/-- The chosen rules: the text, followed by the file. -/
def chosenRules (choice : Choice) (tree : Files.Tree) : Except Trouble (Option String) :=
  match choice.rulesFile with
  | none => .ok choice.rules
  | some path =>
    match tree.readText path with
    | .ok text => .ok (some (onNewLine choice.rules text))
    | .error fault => .error ⟨some (.readingRules path), .files fault⟩

/-- The job that is chosen for the project below a root. -/
def job (choice : Choice) (root : Path) (tree : Files.Tree) : Except Trouble Job :=
  match targetsOf choice.tools with
  | .error failure => .error ⟨none, failure⟩
  | .ok targets => do
    let settings ← loadSettings tree root
    let rules ← choice.chosenRules tree
    .ok
      { targets := targets
        rules := rules.or (settings.bind (·.globalRules))
        profile := choice.profile.or (settings.bind (·.profile))
        locale := choice.loading.localeWith settings
        loading := choice.loading }

/-- Install what is chosen. -/
def run (choice : Choice) (root : Path) (time : Timestamp) (tree : Files.Tree) :
    Run Installed :=
  match choice.job root tree with
  | .error trouble => .refused tree trouble
  | .ok job => job.run root time tree

end Choice

end AgentKit
