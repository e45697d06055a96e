/-
# The catalogues

What a project can be supplied with does not depend on the project: the targets and
the stack profiles. Each catalogue is shown as a table or as a JSON document.
-/

import AgentKit.Json
import AgentKit.Report.Table
import AgentKit.StackProfile
import AgentKit.Target

namespace AgentKit

namespace Target

/-- Targets as a table. -/
def table (targets : List Target) : Table where
  titles := ["KEY", "TOOL", "FILES"]
  rows := targets.map fun target => [target.key, target.label, target.hint]

/-- A target as a JSON value. -/
def document (target : Target) : Json :=
  .object
    [("files", .string target.hint), ("key", .string target.key),
     ("label", .string target.label)]

end Target

namespace StackProfile

/-- Stack profiles as a table. -/
def table (profiles : List StackProfile) : Table where
  titles := ["KEY", "STACK", "RULES"]
  rows := profiles.map fun profile =>
    [profile.key, profile.label, toString profile.rules.length]

/-- A stack profile as a JSON value. -/
def document (profile : StackProfile) : Json :=
  .object
    [("key", .string profile.key), ("label", .string profile.label),
     ("rules", .ofStrings profile.rules)]

end StackProfile

end AgentKit
