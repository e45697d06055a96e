/-
# The places of a command

Which places of the file system a command looks at before it writes, and what it has
changed in the end. With these a file tree can be filled from a disk that is much
larger, and a disk can be brought to the state of the tree.
-/

import AgentKit.CommandLine.Performance

namespace AgentKit.CommandLine

open Files (Location Entry Tree)

/-- The paths that show where the root of a project is. -/
def rootPlaces (tree : Tree) : List Path :=
  tree.workingPath.ancestors.flatMap fun directory =>
    [directory.join toolkitDirectory, directory.join ProjectRoot.repositoryDirectory]

/-- The choices of a command about what is loaded. -/
def loadingOf : Command → LoadOptions
  | .install choice => choice.loading
  | .upgrade options | .list options => options
  | .targets | .profiles | .view => ⟨none, none⟩

/-- The file with rules that a command reads. -/
def rulesFileOf : Command → Option Path
  | .install choice => choice.rulesFile
  | _ => none

/-- The paths that a command looks at first, for the project below a root. -/
def commandPlaces (command : Command) (root : Path) : List Path :=
  [root, root.join Settings.file, root.join overridesDirectory] ++
    Target.all.map (root.join ·.marker) ++
    (rulesFileOf command).toList ++ (loadingOf command).definitions.toList

/-- The paths of definitions with given names, and of those that replace them. -/
def definitionPlaces (command : Command) (root : Path) (names : List String) : List Path :=
  names.flatMap fun name =>
    (((loadingOf command).definitions.map (·.join name)).toList ++
      [(root.join overridesDirectory).join name])

/-- The path of a place from the top. -/
def absolute (location : Location) : Path :=
  "/" ++ "/".intercalate location

/-- Whether a place is that of a settings file. -/
def isSettingsPlace (location : Location) : Bool :=
  Settings.file.parts.isSuffixOf location

/-- The entries of a tree that are not in an earlier one, in the order in which they
were put. So a directory comes before what is in it, and the settings come last. -/
def changes (before after : Tree) : List (Location × Entry) :=
  after.entries.reverse.filter fun (location, entry) => before.find? location != some entry

end AgentKit.CommandLine
