/-
# Paths

A path is a text whose parts are separated by slashes. Empty parts and parts of a
single full stop do not count, except a full stop at the very start; so different
texts can have the same components. The text of a path is kept as it was given,
because messages show it.
-/

import AgentKit.Text.Lines

namespace AgentKit

/-- A path as it was given. -/
abbrev Path := String

namespace Path

/-- The parts of a path between its slashes, empty ones included. -/
def parts (path : Path) : List String :=
  (Text.splitAt '/' path.toList).map String.ofList

/-- The parts of a path that lead anywhere: those that are not empty. -/
def steps (path : Path) : List String :=
  path.parts.filter (!·.isEmpty)

/-- Whether a path begins at the top of the file tree. -/
def isAbsolute (path : Path) : Bool :=
  path.toList.head? == some '/'

/-- Whether a path ends in a slash. -/
def endsInSlash (path : Path) : Bool :=
  path.toList.getLast? == some '/'

/-- A path below a directory. An absolute path stays as it is. -/
def join (directory path : Path) : Path :=
  if isAbsolute path then path
  else if directory.isEmpty || endsInSlash directory then directory ++ path
  else directory ++ "/" ++ path

/-- What a part of a path means. -/
inductive Component where
  /-- The top of the file tree. -/
  | root
  /-- The directory where a relative path begins. -/
  | current
  /-- The directory above. -/
  | parent
  /-- An entry of a directory. -/
  | name (text : String)
  deriving DecidableEq, Repr

/-- Whether a part of a path does not count. -/
def isIdle (part : String) : Bool :=
  part = "" || part = "."

/-- The component that a part of a path is, unless it does not count. -/
def componentOf? (part : String) : Option Component :=
  if isIdle part then none else if part = ".." then some .parent else some (.name part)

/-- Whether a path begins with a part of a single full stop. -/
def beginsAtCurrent (path : Path) : Bool :=
  path.parts.head? == some "."

/-- The components of a path. -/
def components (path : Path) : List Component :=
  let counted := path.parts.filterMap componentOf?
  if isAbsolute path then .root :: counted
  else if beginsAtCurrent path then .current :: counted
  else counted

/-- The place of a kind of component in the order of components. -/
def Component.rank : Component → Nat
  | .root => 0
  | .current => 1
  | .parent => 2
  | .name _ => 3

/-- Whether a component comes before a different one: by kind, and names in the order
of their characters. -/
def Component.precedes : Component → Component → Bool
  | .name a, .name b => a < b
  | a, b => a.rank < b.rank

/-- Whether a list of components comes before another, or is the same. -/
def componentsLe : List Component → List Component → Bool
  | [], _ => true
  | _ :: _, [] => false
  | a :: as, b :: bs => if a = b then componentsLe as bs else a.precedes b

/-- The order of paths: by their components. -/
def le (a b : Path) : Bool :=
  componentsLe (components a) (components b)

/-- Whether two paths have the same components. -/
def same (a b : Path) : Bool :=
  components a = components b

/-- Parts without the idle ones at their end. -/
def dropIdle (parts : List String) : List String :=
  (parts.reverse.dropWhile isIdle).reverse

/-- The start of a path that is not a part of its own: a slash, a full stop or
nothing. -/
def start (path : Path) : String :=
  if isAbsolute path then "/" else if beginsAtCurrent path then "." else ""

/-- The parts of a path after its start. -/
def body (path : Path) : List String :=
  if isAbsolute path || beginsAtCurrent path then path.parts.tail else path.parts

/-- The path with a start and a body. -/
def ofBody (start : String) (body : List String) : Path :=
  let text := "/".intercalate body
  if start = "." && !body.isEmpty then "./" ++ text else start ++ text

/-- The path of the directory that holds the last component of a path. -/
def parent? (path : Path) : Option Path :=
  match dropIdle path.body with
  | [] => if path.start = "." then some "" else none
  | part :: others => some (ofBody path.start (dropIdle (part :: others).dropLast))

/-- A path and the directories above it, in at most `limit` steps. -/
def ancestorsWithin : Nat → Path → List Path
  | 0, path => [path]
  | limit + 1, path =>
    match path.parent? with
    | some parent => path :: ancestorsWithin limit parent
    | none => [path]

/-- A path and the directories above it, nearest first. Every step shortens the
path, so its length limits their number. -/
def ancestors (path : Path) : List Path :=
  ancestorsWithin path.length path

end Path

end AgentKit
