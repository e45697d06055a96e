/-
# Reading a command line

A command line is read from left to right: switches, the name of a command, and
switches of the command. The first word that asks for help or for the version, or
that cannot be understood, ends the reading. A switch whose text is a word of its own
is recorded only when the next switch is met or the words are over; so what is wrong
with it shows after the words of the command.
-/

import AgentKit.Command.Choice
import AgentKit.CommandLine.Word

namespace AgentKit.CommandLine

/-- Why a command line is refused. -/
inductive Refusal where
  | unexpected (word : String)
  | unwantedText (switch : Switch)
  | missingText (switch : Switch)
  | repeated (switch : Switch)
  | emptyPath (switch : Switch)
  | missing (switch : Switch)
  deriving DecidableEq, Repr

/-- Why reading ends before the last word. -/
inductive Stop where
  | help
  | version
  | refused (refusal : Refusal)
  deriving DecidableEq, Repr

/-- The switches that are recorded, with their texts, in order. The text of a switch
that takes none is empty. -/
abbrev Given := List (Switch × String)

namespace Given

/-- Whether a switch is given. -/
def mentions (given : Given) (switch : Switch) : Bool :=
  given.any (·.1 = switch)

/-- The text of a switch, if it is given. -/
def text? (given : Given) (switch : Switch) : Option String :=
  given.lookup switch

/-- All texts of a switch. -/
def texts (given : Given) (switch : Switch) : List String :=
  (given.filter (·.1 = switch)).map (·.2)

/-- Record a switch with its text. -/
def record (given : Given) (switch : Switch) (text : String) : Except Stop Given :=
  if switch = .help then .error .help
  else if switch = .version then .error .version
  else if given.mentions switch && !switch.isRepeatable then
    .error (.refused (.repeated switch))
  else if switch.isPath && text.isEmpty then .error (.refused (.emptyPath switch))
  else .ok (given ++ [(switch, text)])

/-- Record a switch that the environment has a text for, unless it is given. -/
def recordFrom (environment : Environment) (given : Given) (switch : Switch) :
    Except Stop Given :=
  if given.mentions switch then .ok given
  else
    match environment.text? switch with
    | some text => given.record switch text
    | none => .ok given

/-- Record what the environment has for some switches. -/
def recordAllFrom (environment : Environment) (given : Given) :
    List Switch → Except Stop Given
  | [] => .ok given
  | switch :: switches =>
    match given.recordFrom environment switch with
    | .ok given => recordAllFrom environment given switches
    | .error stop => .error stop

end Given

/-- The state of reading: what is recorded, and a switch whose text was a word of its
own, which is not recorded yet. -/
structure Progress where
  given : Given
  pending : Option (Switch × String)
  deriving DecidableEq, Repr

namespace Progress

/-- The state before the first word. -/
def start : Progress := ⟨[], none⟩

/-- Record the pending switch. -/
def settle (progress : Progress) : Except Stop Given :=
  match progress.pending with
  | some (switch, text) => progress.given.record switch text
  | none => .ok progress.given

/-- Record a switch that is complete. -/
def record (progress : Progress) (switch : Switch) (text : String) : Except Stop Progress := do
  let given ← progress.settle
  let given ← given.record switch text
  .ok ⟨given, none⟩

/-- Keep a switch with a text from a word of its own. -/
def keep (progress : Progress) (switch : Switch) (text : String) : Except Stop Progress := do
  let given ← progress.settle
  .ok ⟨given, some (switch, text)⟩

/-- Read a switch by its name. The result names the switch if it still wants a
text. -/
def readNamed (progress : Progress) (switches : List Switch) (word name : String)
    (text : Option String) : Except Stop (Progress × Option Switch) :=
  match switches.find? (·.name == name), text with
  | none, _ => .error (.refused (.unexpected word))
  | some switch, some text =>
    if switch.takesText then (progress.record switch text).map (·, none)
    else .error (.refused (.unwantedText switch))
  | some switch, none =>
    if switch.takesText then .ok (progress, some switch)
    else (progress.record switch "").map (·, none)

/-- The text that a switch has in the rest of a row of letters. An equals sign before
it does not count. -/
def attachedText : List Char → String
  | '=' :: text => String.ofList text
  | text => String.ofList text

/-- Read a row of letters. The result names the last switch if it still wants a
text. -/
def readLetters (progress : Progress) (switches : List Switch) (word : String) :
    List Char → Except Stop (Progress × Option Switch)
  | [] => .ok (progress, none)
  | letter :: letters =>
    match switches.find? (·.letter? == some letter) with
    | none => .error (.refused (.unexpected word))
    | some switch =>
      if switch.takesText then
        if letters.isEmpty then .ok (progress, some switch)
        else (progress.record switch (attachedText letters)).map (·, none)
      else
        match progress.record switch "" with
        | .ok progress => readLetters progress switches word letters
        | .error stop => .error stop

/-- Read a word that is not plain. -/
def readSwitch (progress : Progress) (switches : List Switch) (word : String) :
    Except Stop (Progress × Option Switch) :=
  match Word.ofText word with
  | .named name text => progress.readNamed switches word name text
  | .letters letters => progress.readLetters switches word letters
  | .plain | .endOfSwitches => .error (.refused (.unexpected word))

/-- Read words up to the first plain one. The result holds the words from that one
on. Behind the end of switches there may be no more words. -/
def readWords (progress : Progress) (switches : List Switch) :
    List String → Except Stop (Progress × List String)
  | [] => .ok (progress, [])
  | word :: words =>
    match Word.ofText word with
    | .plain => .ok (progress, word :: words)
    | .endOfSwitches =>
      match words with
      | [] => .ok (progress, [])
      | other :: _ => .error (.refused (.unexpected other))
    | _ =>
      match progress.readSwitch switches word with
      | .error stop => .error stop
      | .ok (progress, none) => readWords progress switches words
      | .ok (progress, some switch) =>
        match words with
        | [] => .error (.refused (.missingText switch))
        | text :: words =>
          if Word.isText text then
            match progress.keep switch text with
            | .ok progress => readWords progress switches words
            | .error stop => .error stop
          else .error (.refused (.missingText switch))

end Progress

end AgentKit.CommandLine
