/-
# The root of a project

A command works on one project. Its root can be given; otherwise it is looked for
from the working directory upwards. A directory with settings of its own comes
before a repository, however near the repository is, and where there is neither the
working directory itself is the root.
-/

import AgentKit.Settings.Storage

namespace AgentKit.ProjectRoot

/-- The directory that marks a repository. -/
def repositoryDirectory : Path := ".git"

/-- The first of some directories that holds a directory with a given name. -/
def holding (tree : Files.Tree) (name : Path) (directories : List Path) : Option Path :=
  directories.find? fun directory => tree.isDirectory (directory.join name)

/-- The root of the project that a directory belongs to. -/
def above (tree : Files.Tree) (start : Path) : Path :=
  let directories := start.ancestors
  ((holding tree toolkitDirectory directories).or
    (holding tree repositoryDirectory directories)).getD start

/-- The root of the project: the one that is given, or else the one that the working
directory belongs to. -/
def resolve (tree : Files.Tree) (given : Option Path) : Path :=
  match given with
  | some path => path
  | none => above tree tree.workingPath

end AgentKit.ProjectRoot
