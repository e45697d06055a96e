/-
# Installation and detection

Installing a target means to plan its artifacts for a list of agents and to deliver
them. A target counts as installed where its marker is there.
-/

import AgentKit.Delivery
import AgentKit.Plan

namespace AgentKit.Target

/-- Install a target for a list of agents below a root. Without agents nothing is
done. -/
def install (target : Target) (agents : List Agent) (locale : Locale) (root : Path)
    (tree : Files.Tree) : Files.Tree × Except Failure (List Delivered) :=
  if agents.isEmpty then (tree, .ok [])
  else deliver root (target.plan locale agents) tree

/-- Whether the marker of a target is there below a root. -/
def isDetected (tree : Files.Tree) (root : Path) (target : Target) : Bool :=
  tree.isThere (root.join target.marker)

/-- The targets whose markers are there below a root, in their usual order. -/
def detect (tree : Files.Tree) (root : Path) : List Target :=
  all.filter (isDetected tree root)

end AgentKit.Target
