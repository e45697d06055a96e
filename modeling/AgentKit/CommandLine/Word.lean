/-
# Words of a command line

A word that begins with two hyphens names a switch, and may bring its text after an
equals sign. A word that begins with one hyphen is a row of letters, each of which is
a switch. Two hyphens alone end the switches, and a single hyphen is plain.
-/

import AgentKit.CommandLine.Switch

namespace AgentKit.CommandLine

/-- What a word of a command line is. -/
inductive Word where
  | plain
  | endOfSwitches
  | named (name : String) (text : Option String)
  | letters (letters : List Char)
  deriving DecidableEq, Repr

namespace Word

/-- The text after the first equals sign of a word, if it has one. -/
def textAfterEquals (word : List Char) : Option String :=
  match word.dropWhile (· != '=') with
  | [] => none
  | _ :: text => some (String.ofList text)

/-- What a word is. -/
def ofText (text : String) : Word :=
  match text.toList with
  | ['-', '-'] => .endOfSwitches
  | '-' :: '-' :: rest =>
    .named (String.ofList (rest.takeWhile (· != '='))) (textAfterEquals rest)
  | '-' :: first :: others => .letters (first :: others)
  | _ => .plain

/-- Whether a word can be the text of the switch before it. -/
def isText (text : String) : Bool :=
  ofText text = .plain

end Word

end AgentKit.CommandLine
