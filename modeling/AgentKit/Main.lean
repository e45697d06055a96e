/-
# The program

The outer layer of the program. It fills a file tree with the places of the disk that
the command looks at, runs the command on the tree, and brings the disk to the state
of the tree. Since the places that a command writes are known only after a run, it
runs twice: the first run shows the places, which are then looked at too.
-/

import AgentKit.CommandLine.Places
import AgentKit.Timestamp.Clock
import Std.Time.DateTime.Timestamp

namespace AgentKit.Program

open CommandLine
open Files (Location Content Entry Tree)

/-- The content that some bytes are. -/
def contentOf (bytes : ByteArray) : Content :=
  match String.fromUTF8? bytes with
  | some text => .text text
  | none => .binary bytes

/-- The bytes of a content. -/
def bytesOf : Content → ByteArray
  | .text value => value.toUTF8
  | .binary bytes => bytes

/-- What there is on the disk at a path. -/
def entryOnDisk (path : Path) : IO (Option Entry) := do
  let place := (← IO.currentDir) / path
  if ← place.isDir then return some .directory
  else if ← place.pathExists then return some (.file (contentOf (← IO.FS.readBinFile place)))
  else return none

/-- The tree with what there is on the disk at a path. -/
def lookAt (tree : Tree) (path : Path) : IO Tree := do
  match tree.locate path with
  | .ok (.name location name _) =>
    match ← entryOnDisk path with
    | some entry => return tree.put (location ++ [name]) entry
    | none => return tree
  | _ => return tree

/-- The tree with what there is on the disk along some paths. -/
def lookAlong (tree : Tree) (paths : List Path) : IO Tree :=
  paths.foldlM (fun tree path => path.ancestors.reverse.foldlM lookAt tree) tree

/-- The names of the default definitions of a command. -/
def definitionNames (command : Command) : IO (List String) := do
  match (loadingOf command).definitions with
  | none => return Definition.bundled.map (·.name)
  | some path =>
    let place := (← IO.currentDir) / path
    unless ← place.isDir do return []
    let names := (← place.readDir).toList.map (·.fileName)
    return names.filter fun name => (Definition.stem? name).isSome

/-- The tree of the disk around the working directory. -/
def startTree : IO Tree := do
  let path : Path := (← IO.currentDir).toString
  let above := (List.range path.steps.length).map fun n => path.steps.take (n + 1)
  let tree : Tree := above.foldl (·.put · .directory) { entries := [], workingDirectory := [] }
  return { tree with workingDirectory := path.steps }

/-- The tree with the places that an invocation looks at. -/
def lookFor (invocation : Invocation) : IO Tree := do
  let tree ← startTree
  let tree ← lookAlong tree (rootPlaces tree)
  let root := ProjectRoot.resolve tree invocation.root
  let tree ← lookAlong tree (commandPlaces invocation.command root)
  lookAlong tree (definitionPlaces invocation.command root (← definitionNames invocation.command))

/-- Write a file beside its place, and move it there when it is complete. -/
def replaceOnDisk (path : Path) (content : Content) : IO Unit := do
  IO.FS.writeBinFile (path ++ ".new") (bytesOf content)
  IO.FS.rename (path ++ ".new") path

/-- Bring a changed place of the disk to the state of the tree. -/
def store (location : Location) (entry : Entry) : IO Unit := do
  let path := absolute location
  match entry with
  | .directory => IO.FS.createDirAll path
  | .file content =>
    if isSettingsPlace location then replaceOnDisk path content
    else IO.FS.writeBinFile path (bytesOf content)

/-- Run a request on the disk. -/
def runRequest (request : Request) (time : Timestamp) : IO Output := do
  match request with
  | .run invocation =>
    let tree ← lookFor invocation
    let touched := changes tree (request.perform time tree).1
    let tree ← lookAlong tree (touched.map fun (location, _) => absolute location)
    let (after, output) := request.perform time tree
    for (location, entry) in changes tree after do
      store location entry
    return output
  | _ => return (request.perform time (← startTree)).2

/-- The variables of the environment that the program reads. -/
def environment : IO Environment := do
  return {
    root := ← IO.getEnv "SDD_ROOT"
    locale := ← IO.getEnv "SDD_LOCALE"
    definitions := ← IO.getEnv "SDD_DEFINITIONS" }

/-- The time of the clock. -/
def now : IO Timestamp := do
  let time ← Std.Time.Timestamp.now
  return .ofClock time.toNanosecondsSinceUnixEpoch.val.toNat

/-- Run the program with the words of its command line. The result is the exit
code. -/
def run (words : List String) : IO UInt32 := do
  let request := Request.ofWords (← environment) words
  let output ← runRequest request (← now)
  (← IO.getStdout).putStr output.report
  (← IO.getStderr).putStr output.trouble
  return UInt32.ofNat output.exitCode

end AgentKit.Program

/-- The entry of the program. -/
def main (words : List String) : IO UInt32 :=
  AgentKit.Program.run words
