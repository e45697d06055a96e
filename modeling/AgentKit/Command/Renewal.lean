/-
# Renewal of an installation

A renewal repeats the last installation with the agents of today. The settings say
for which targets, with which rules and in which language; a project without recorded
targets is searched for traces of an earlier installation.
-/

import AgentKit.Command.Job

namespace AgentKit

/-- What came of a renewal. -/
inductive Renewal where
  /-- No target is recorded, and no trace of one was found. -/
  | nothing (locale : Locale)
  /-- The targets were installed again. -/
  | renewed (installed : Installed)

namespace Renewal

/-- The targets that are renewed: the recorded ones, or else those that are
detected. -/
def targets (settings : Option Settings) (root : Path) (tree : Files.Tree) : List Target :=
  match (settings.map (·.targets)).getD [] with
  | [] => Target.detect tree root
  | recorded => recorded

/-- The job that repeats the last installation for some targets. -/
def job (options : LoadOptions) (settings : Option Settings) (targets : List Target) : Job where
  targets := targets
  rules := settings.bind (·.globalRules)
  profile := settings.bind (·.profile)
  locale := options.localeWith settings
  loading := options

/-- The line that announces a renewal. -/
def announcement (job : Job) : String :=
  Phrase.detected.render job.locale [("tools", ", ".intercalate (job.targets.map (·.key)))]

/-- The run of a renewal for some targets. -/
def runJob (job : Job) (root : Path) (time : Timestamp) (tree : Files.Tree) : Run Renewal :=
  let run := job.run root time tree
  { tree := run.tree
    announced := announcement job :: run.announced
    result := run.result.map .renewed }

/-- Repeat the last installation. -/
def run (options : LoadOptions) (root : Path) (time : Timestamp) (tree : Files.Tree) :
    Run Renewal :=
  match loadSettings tree root with
  | .error trouble => .refused tree trouble
  | .ok settings =>
    match targets settings root tree with
    | [] =>
      { tree := tree
        announced := []
        result := .ok (.nothing (options.localeWith settings)) }
    | target :: others => runJob (job options settings (target :: others)) root time tree

end Renewal

end AgentKit
