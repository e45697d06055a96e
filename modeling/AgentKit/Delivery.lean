/-
# Delivery of artifacts

Delivery writes artifacts below the root of a project. Of several artifacts for
one path the last is kept. All directories are made before the first file is
written, so an obstacle in a directory leaves every file as it was; and whether
a file was there is found out before any is written.
-/

import AgentKit.Artifact
import AgentKit.Failure
import AgentKit.Files.Operations

namespace AgentKit

/-- What became of an artifact: its path, and whether there was a file before. -/
structure Delivered where
  path : Path
  existed : Bool
  deriving DecidableEq, Repr

/-- The word for what became of an artifact. -/
def Delivered.verb (delivered : Delivered) : String :=
  if delivered.existed then "updated" else "created"

namespace Delivery

/-- The artifacts without those for whose path there is a later one. -/
def keepLast : List Artifact → List Artifact
  | [] => []
  | artifact :: later =>
    if later.any (Path.same artifact.path ·.path) then keepLast later
    else artifact :: keepLast later

/-- The directory of an artifact below a root. -/
def directoryOf (root : Path) (artifact : Artifact) : Option Path :=
  (Path.join root artifact.path).parent?

/-- Paths in order, each only once; of different texts for one path the last is
kept. -/
def distinct : List Path → List Path
  | [] => []
  | path :: later => if later.any (Path.same path) then distinct later else path :: distinct later

/-- The directories of artifacts below a root, in order. -/
def directories (root : Path) (artifacts : List Artifact) : List Path :=
  (distinct (artifacts.filterMap (directoryOf root))).mergeSort Path.le

/-- Make directories, up to the first that cannot be made. -/
def makeAll (tree : Files.Tree) : List Path → Files.Tree × Except Failure Unit
  | [] => (tree, .ok ())
  | path :: paths =>
    match tree.makeDirectories path with
    | (tree, .ok ()) => makeAll tree paths
    | (tree, .error fault) => (tree, .error (.write path fault))

/-- Write the files of artifacts, up to the first that cannot be written. -/
def writeAll (root : Path) (tree : Files.Tree) :
    List Artifact → Files.Tree × Except Failure Unit
  | [] => (tree, .ok ())
  | artifact :: artifacts =>
    let path := Path.join root artifact.path
    match tree.overwrite path (.text artifact.content) with
    | (tree, .ok ()) => writeAll root tree artifacts
    | (tree, .error fault) => (tree, .error (.write path fault))

/-- What becomes of an artifact when it is written into a tree. -/
def outcome (root : Path) (tree : Files.Tree) (artifact : Artifact) : Delivered where
  path := artifact.path
  existed := tree.isThere (Path.join root artifact.path)

end Delivery

/-- Write artifacts below a root. -/
def deliver (root : Path) (artifacts : List Artifact) (tree : Files.Tree) :
    Files.Tree × Except Failure (List Delivered) :=
  let kept := Delivery.keepLast artifacts
  match Delivery.makeAll tree (Delivery.directories root kept) with
  | (tree, .error failure) => (tree, .error failure)
  | (tree, .ok ()) =>
    match Delivery.writeAll root tree kept with
    | (written, .ok ()) => (written, .ok (kept.map (Delivery.outcome root tree)))
    | (written, .error failure) => (written, .error failure)

end AgentKit
