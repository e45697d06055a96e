/-
# Agent definitions

A definition is what one definition file says about an agent, after validation
and with defaults filled in. File names matter too: a definition file is
recognised by its extension, and what stands before the extension names the agent.
-/

namespace AgentKit

/-- A validated agent definition. -/
structure Definition where
  name : String
  role : String
  emoji : String
  systemPrompt : String
  rules : List String
  tools : List String
  description : Option String
  deriving DecidableEq, Repr

namespace Definition

/-- The emoji of a definition that declares none. -/
def defaultEmoji : String := "🤖"

/-- The extensions of definition files. -/
def extensions : List String := ["yaml", "yml"]

/-- What stands before the last full stop of a text, and what stands after it. -/
def splitLastDot (cs : List Char) : Option (List Char × List Char) :=
  match cs.reverse.dropWhile (· != '.') with
  | [] => none
  | _ :: before => some (before.reverse, (cs.reverse.takeWhile (· != '.')).reverse)

/-- The stem of a definition file's name: the name without its extension. Other
files, and names that consist of the extension alone, have none. Only the last
extension is removed. -/
def stem? (fileName : String) : Option String :=
  match splitLastDot fileName.toList with
  | none => none
  | some (stem, extension) =>
    if stem.isEmpty || !extensions.contains (String.ofList extension) then none
    else some (String.ofList stem)

end Definition

end AgentKit
