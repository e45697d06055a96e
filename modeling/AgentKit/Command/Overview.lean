/-
# The overview of a project

An overview shows what is recorded about a project and what is found in it. It
changes nothing.
-/

import AgentKit.Command.Loading
import AgentKit.Installation

namespace AgentKit

/-- What is known about the project below a root. -/
structure Overview where
  root : Path
  settings : Option Settings
  detected : List Target
  deriving DecidableEq, Repr

namespace Overview

/-- Look at the project below a root. -/
def ofProject (root : Path) (tree : Files.Tree) : Except Trouble Overview := do
  let settings ← loadSettings tree root
  .ok ⟨root, settings, Target.detect tree root⟩

/-- The warnings about the settings. -/
def warnings (overview : Overview) : List Settings.Warning :=
  (overview.settings.map (·.warnings)).getD []

end Overview

end AgentKit
