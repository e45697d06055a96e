/-
# The settings file

Settings are kept in one file of the project. Where it is not there, nothing was
installed yet; it is replaced at once, so that it is never seen half written.
-/

import AgentKit.Failure
import AgentKit.Files.Operations
import AgentKit.Settings.Reading
import AgentKit.Settings.Writing

namespace AgentKit

/-- The directory in which a project keeps its settings and overrides. -/
def toolkitDirectory : Path := ".sdd-toolkit"

/-- The directory of overrides below the root of a project. -/
def overridesDirectory : Path := ".sdd-toolkit/agents"

namespace Settings

/-- The settings file below the root of a project. -/
def file : Path := ".sdd-toolkit/config.yaml"

/-- The settings of the project below a root, if it has any. -/
def load (tree : Files.Tree) (root : Path) : Except Failure (Option Settings) :=
  let path := root.join file
  if tree.isThere path then
    match tree.readText path with
    | .error fault => .error (.files fault)
    | .ok text =>
      match ofText text with
      | .ok settings => .ok (some settings)
      | .error error => .error (.settings error)
  else .ok none

/-- Keep the settings of the project below a root. -/
def save (settings : Settings) (root : Path) (tree : Files.Tree) :
    Files.Tree × Except Failure Unit :=
  match tree.writeAtomically (root.join file) (.text settings.toText) with
  | (tree, .ok ()) => (tree, .ok ())
  | (tree, .error fault) => (tree, .error (.files fault))

end Settings

end AgentKit
