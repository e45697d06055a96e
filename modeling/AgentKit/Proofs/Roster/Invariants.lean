/-
# What holds of every loaded agent

An agent that was loaded has a name, a role and a prompt of the required length; it is known by
the name of its file; and its texts, lists and rules are those that its file declares, wherever
the file was found. No default other than the emoji is ever filled in, and no file without a stem
is ever loaded.
-/

import AgentKit.Proofs.Agent.Identifier
import AgentKit.Proofs.Definition.Validation
import AgentKit.Proofs.Plan.Installed
import AgentKit.Proofs.Roster.Loading
import AgentKit.Proofs.RuleText.Joining

namespace AgentKit

open Files (Tree)
open Definition (declared? IsDeclared)

variable {request : LoadRequest} {tree : Tree} {roster : Roster} {file stem : String}
  {agent : Agent}

/-! ## Slugs -/

namespace LoadRequest

/-- There is an override of a file: the directory of overrides is there, and something of that
name is in it. -/
def Overrides (request : LoadRequest) (tree : Tree) (file : String) : Prop :=
  ∃ directory, request.overrides = some directory ∧ tree.isDirectory directory ∧
    tree.isThere (directory.join file)

theorem presentOverrides_eq_some_iff {directory : Path} :
    request.presentOverrides tree = some directory ↔
      request.overrides = some directory ∧ tree.isDirectory directory :=
  Option.filter_eq_some_iff

end LoadRequest

end AgentKit
