/-
# Artifacts

An artifact is a document together with the place for it below the root of a
project. Planning an installation yields artifacts; nothing is written yet.
-/

import AgentKit.Files.Path

namespace AgentKit

/-- A document and the path for it, relative to the root of a project. -/
structure Artifact where
  path : Path
  content : String
  deriving DecidableEq, Repr

end AgentKit
