/-
# Installation jobs

A job says what one installation is to do, after all choices are made. Carrying it
out loads the agents, installs the targets one after the other, and records the job
in the settings. A job that fails is not recorded; but targets that were installed
before the failure stay installed.
-/

import AgentKit.Command.Loading
import AgentKit.Installation
import AgentKit.Phrase

namespace AgentKit

/-- What one installation is to do. `rules` are the rules of the user alone. -/
structure Job where
  targets : List Target
  rules : Option String
  profile : Option String
  locale : Locale
  loading : LoadOptions
  deriving DecidableEq, Repr

/-- What an installation has done. -/
structure Installed where
  locale : Locale
  roster : Roster
  targets : List (Target × List Delivered)

/-- The version that an installation records. -/
def toolkitVersion : String := "0.1.0"

/-- Install targets one after the other, up to the first that fails. -/
def installAll (agents : List Agent) (locale : Locale) (root : Path) (tree : Files.Tree) :
    List Target → Files.Tree × Except Trouble (List (Target × List Delivered))
  | [] => (tree, .ok [])
  | target :: targets =>
    match target.install agents locale root tree with
    | (tree, .error failure) => (tree, .error ⟨some (.installing target), failure⟩)
    | (tree, .ok delivered) =>
      match installAll agents locale root tree targets with
      | (tree, .error trouble) => (tree, .error trouble)
      | (tree, .ok others) => (tree, .ok ((target, delivered) :: others))

namespace Job

/-- The settings that record a job. -/
def stamp (job : Job) (settings : Settings) (time : Timestamp) : Settings :=
  settings.stamp job.targets job.locale job.rules job.profile toolkitVersion time

/-- Record a job in the settings of the project, which are made if it has none. -/
def record (job : Job) (root : Path) (time : Timestamp) (tree : Files.Tree) :
    Files.Tree × Except Trouble Unit :=
  match loadSettings tree root with
  | .error trouble => (tree, .error trouble)
  | .ok settings =>
    match (job.stamp (settings.getD .default) time).save root tree with
    | (tree, .ok ()) => (tree, .ok ())
    | (tree, .error failure) => (tree, .error ⟨some .savingSettings, failure⟩)

/-- Load the agents with the shared rules, install the targets and record the job. -/
def carryOut (job : Job) (root : Path) (time : Timestamp) (shared : Option String)
    (tree : Files.Tree) : Files.Tree × Except Trouble Installed :=
  match job.loading.loadRoster root job.locale shared tree with
  | .error trouble => (tree, .error trouble)
  | .ok roster =>
    match installAll roster.agents job.locale root tree job.targets with
    | (tree, .error trouble) => (tree, .error trouble)
    | (tree, .ok targets) =>
      match job.record root time tree with
      | (tree, .error trouble) => (tree, .error trouble)
      | (tree, .ok ()) => (tree, .ok ⟨job.locale, roster, targets⟩)

/-- The run of a job. An unknown profile is found out before anything is
announced. -/
def run (job : Job) (root : Path) (time : Timestamp) (tree : Files.Tree) : Run Installed :=
  match sharedRules job.rules job.profile with
  | .error failure => .refused tree ⟨none, failure⟩
  | .ok shared =>
    let (tree, result) := job.carryOut root time shared tree
    { tree := tree, announced := [Phrase.loading.wording job.locale], result := result }

end Job

end AgentKit
