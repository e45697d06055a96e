/-
# Operations on files

Reading, writing and making directories in a file tree. Every operation says which
fault it meets; an operation that changes the tree returns the tree also when it
fails, because a part of the work may have been done.
-/

import AgentKit.Files.Fault
import AgentKit.Files.Tree

namespace AgentKit.Files

/-- Where a path leads: to a directory that it names by full stops or not at all, or
to a name in a directory. A slash behind the name demands a directory. -/
inductive Spot where
  | directory (location : Location)
  | name (location : Location) (name : String) (slash : Bool)
  deriving DecidableEq, Repr

/-- The number of bytes that a name may have. -/
def nameLimit : Nat := 255

/-- The number of bytes below which a path must stay. -/
def pathLimit : Nat := 4096

/-- The fault of a text that leads nowhere, whatever tree it is followed in. -/
def flaw? (path : Path) : Option Fault :=
  if path.toList.contains '\x00' then some .zeroInPath
  else if path.isEmpty then some .notFound
  else if path.utf8ByteSize ≥ pathLimit then some .nameTooLong
  else none

namespace Tree

/-- What there is under a name in a directory, if there is anything. A name that is
too long cannot be looked up. -/
def lookUp (tree : Tree) (location : Location) (name : String) :
    Except Fault (Option Entry) :=
  if name.utf8ByteSize > nameLimit then .error .nameTooLong
  else .ok (tree.find? (location ++ [name]))

/-- Follow one part of a path from a directory. It must lead to a directory. -/
def follow (tree : Tree) (location : Location) (part : String) : Except Fault Location :=
  if part = "." then .ok location
  else if part = ".." then .ok location.dropLast
  else
    match tree.lookUp location part with
    | .ok (some .directory) => .ok (location ++ [part])
    | .ok (some (.file _)) => .error .notDirectory
    | .ok none => .error .notFound
    | .error fault => .error fault

/-- Follow the parts of a path from a directory. -/
def walk (tree : Tree) (location : Location) (parts : List String) : Except Fault Location :=
  parts.foldlM tree.follow location

/-- The directory where a path begins. -/
def startOf (tree : Tree) (path : Path) : Location :=
  if path.isAbsolute then [] else tree.current

/-- Where a path leads. Nothing needs to be there, but the directories on the way do.
The last name is not looked up, so it may be too long. -/
def locate (tree : Tree) (path : Path) : Except Fault Spot :=
  match flaw? path with
  | some fault => .error fault
  | none =>
    match path.steps.getLast? with
    | none => .ok (.directory [])
    | some last => do
      let location ← tree.walk (tree.startOf path) path.steps.dropLast
      if last = "." then .ok (.directory location)
      else if last = ".." then .ok (.directory location.dropLast)
      else .ok (.name location last path.endsInSlash)

/-- What there is at a path. -/
def entryAt (tree : Tree) (path : Path) : Except Fault Entry := do
  match ← tree.locate path with
  | .directory _ => .ok .directory
  | .name location name slash =>
    match ← tree.lookUp location name with
    | none => .error .notFound
    | some .directory => .ok .directory
    | some (.file content) => if slash then .error .notDirectory else .ok (.file content)

/-- Whether there is anything at a path. -/
def isThere (tree : Tree) (path : Path) : Bool :=
  match tree.entryAt path with
  | .ok _ => true
  | .error _ => false

/-- Whether there is a directory at a path. -/
def isDirectory (tree : Tree) (path : Path) : Bool :=
  match tree.entryAt path with
  | .ok .directory => true
  | _ => false

/-- The text of a file. -/
def readText (tree : Tree) (path : Path) : Except Fault String := do
  match ← tree.entryAt path with
  | .directory => .error .isDirectory
  | .file (.text value) => .ok value
  | .file (.binary _) => .error .notText

/-- The names of the files that lie directly in a directory. -/
def filesIn (tree : Tree) (directory : Location) : List String :=
  (tree.children directory).filterMap fun (name, entry) =>
    match entry with
    | .file _ => some name
    | .directory => none

/-- The names of the files that lie directly in the directory at a path. -/
def fileNames (tree : Tree) (path : Path) : Except Fault (List String) := do
  match ← tree.locate path with
  | .directory location => .ok (tree.filesIn location)
  | .name location name _ =>
    match ← tree.lookUp location name with
    | none => .error .notFound
    | some .directory => .ok (tree.filesIn (location ++ [name]))
    | some (.file _) => .error .notDirectory

/-- Make a directory. Nothing must be there. -/
def makeDirectory (tree : Tree) (path : Path) : Tree × Except Fault Unit :=
  match tree.locate path with
  | .error fault => (tree, .error fault)
  | .ok (.directory _) => (tree, .error .alreadyThere)
  | .ok (.name location name _) =>
    match tree.lookUp location name with
    | .error fault => (tree, .error fault)
    | .ok (some _) => (tree, .error .alreadyThere)
    | .ok none => (tree.put (location ++ [name]) .directory, .ok ())

/-- The outcome of making a directory where a directory may be there already. -/
def settleDirectory (path : Path) (made : Tree × Except Fault Unit) : Tree × Except Fault Unit :=
  match made with
  | (tree, .error fault) => if tree.isDirectory path then (tree, .ok ()) else (tree, .error fault)
  | (tree, .ok ()) => (tree, .ok ())

/-- Make the first of a list of directories, and before it those of the others that
are missing; each is the directory that holds the one before it. -/
def makeMissing (tree : Tree) : List Path → Tree × Except Fault Unit
  | [] => (tree, .ok ())
  | path :: above =>
    if path.components.isEmpty then (tree, .ok ())
    else
      match tree.makeDirectory path with
      | (tree, .error .notFound) =>
        match tree.makeMissing above with
        | (tree, .ok ()) => settleDirectory path (tree.makeDirectory path)
        | (tree, .error fault) => (tree, .error fault)
      | made => settleDirectory path made

/-- Make a directory and the directories above it, where they are missing. -/
def makeDirectories (tree : Tree) (path : Path) : Tree × Except Fault Unit :=
  tree.makeMissing path.ancestors

/-- Write a file in place. The directory must be there; what the file held is lost.
A slash at the end is refused before the name is looked up. -/
def overwrite (tree : Tree) (path : Path) (content : Content) : Tree × Except Fault Unit :=
  match tree.locate path with
  | .error fault => (tree, .error fault)
  | .ok (.directory _) => (tree, .error .isDirectory)
  | .ok (.name location name slash) =>
    if slash then (tree, .error .isDirectory)
    else
      match tree.lookUp location name with
      | .error fault => (tree, .error fault)
      | .ok (some .directory) => (tree, .error .isDirectory)
      | .ok _ => (tree.put (location ++ [name]) (.file content), .ok ())

/-- Move a complete new file to a path. The name is looked up before a slash at the
end is refused, and a path that is none is an invalid argument. -/
def replace (tree : Tree) (path : Path) (content : Content) : Tree × Except Fault Unit :=
  match tree.locate path with
  | .error .zeroInPath => (tree, .error .invalidArgument)
  | .error fault => (tree, .error fault)
  | .ok (.directory _) => (tree, .error .busy)
  | .ok (.name location name slash) =>
    match tree.lookUp location name with
    | .error fault => (tree, .error fault)
    | .ok found =>
      if slash then (tree, .error .notDirectory)
      else if found = some .directory then (tree, .error .isDirectory)
      else (tree.put (location ++ [name]) (.file content), .ok ())

/-- Write a file at once: its directory is made if it is missing, and at no moment
does the file hold a part of its new content. -/
def writeAtomically (tree : Tree) (path : Path) (content : Content) :
    Tree × Except Fault Unit :=
  match path.parent? with
  | none => tree.replace path content
  | some directory =>
    match tree.makeDirectories directory with
    | (tree, .error fault) => (tree, .error fault)
    | (tree, .ok ()) => tree.replace path content

/-- Remove a file, or a directory with everything below it. -/
def remove (tree : Tree) (path : Path) : Tree × Except Fault Unit :=
  match tree.locate path, tree.entryAt path with
  | .ok (.name location name _), .ok _ => (tree.prune (location ++ [name]), .ok ())
  | .ok (.directory location), .ok _ => (tree.prune location, .ok ())
  | .error fault, _ => (tree, .error fault)
  | _, .error fault => (tree, .error fault)

end Tree

end AgentKit.Files
