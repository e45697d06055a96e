/-
# Help

The texts that explain the command line: what the program and each of its commands
do, which switches there are, and why a command line was refused.
-/

import AgentKit.CommandLine.Reading

namespace AgentKit.CommandLine

/-- The name under which the program is called. -/
def programName : String := "sdd"

/-- What the program does. -/
def summary : String :=
  "Compile agent definitions into configuration for AI coding assistants"

/-- What a command does. -/
def Verb.summary : Verb → String
  | .install => "Generate agent files for one or more tools"
  | .upgrade => "Regenerate agent files for the tools already in use"
  | .list => "List the agents that would be installed"
  | .targets => "List supported tools and where their files go"
  | .profiles => "List stack profiles"
  | .view => "Show the project's sdd configuration"

namespace Switch

/-- What a switch does. -/
def summary : Switch → String
  | .root => "Project root (default: auto-detect from .sdd-toolkit/ or .git/)"
  | .json => "Output as JSON"
  | .verbose => "Enable debug logging"
  | .upgrade => "Re-install the previously configured tools (same as \x60sdd upgrade\x60)"
  | .tool => "Tool to generate files for (repeatable; \x60all\x60 selects every tool)"
  | .rules => "Extra rules for every agent, one per line"
  | .rulesFile => "Read extra rules from a file"
  | .profile => "Stack profile whose rules are added (see \x60sdd profiles\x60)"
  | .locale => "Output language: en, pt_br, es (unknown values fall back to en)"
  | .definitions => "Directory of default definitions (default: the bundled set)"
  | .help => "Print help"
  | .version => "Print version"

/-- How a switch is written. -/
def usage (switch : Switch) : String :=
  let letter := (switch.letter?.map fun letter => String.ofList ['-', letter, ',', ' ']).getD ""
  let text := if switch.takesText then " <" ++ switch.name.toUpper ++ ">" else ""
  letter ++ "--" ++ switch.name ++ text

end Switch

/-- The program with a command, as it is called. -/
def callOf (verb : Option Verb) : String :=
  programName ++ (verb.map (" " ++ ·.name)).getD ""

/-- The line that shows how a command is called. -/
def usageLine (verb : Option Verb) : String :=
  "Usage: " ++ callOf verb ++ " [OPTIONS]" ++ if verb.isNone then " [COMMAND]" else ""

/-- The lines that list the commands. -/
def verbLines : List String :=
  ["", "Commands:"] ++ Verb.all.map fun verb => "  " ++ verb.name ++ ": " ++ verb.summary

/-- The lines that list the switches of a command. -/
def switchLines (verb : Option Verb) : List String :=
  ["", "Options:"] ++ (Switch.understoodBy verb).map fun switch =>
    "  " ++ switch.usage ++ ": " ++ switch.summary

/-- The lines of the help about the program or one of its commands. -/
def helpLines (verb : Option Verb) : List String :=
  [(verb.map Verb.summary).getD summary, "", usageLine verb] ++
    (if verb.isNone then verbLines else []) ++ switchLines verb

/-- The wording of a refusal. -/
def Refusal.message : Refusal → String
  | .unexpected word => "unexpected argument '" ++ word ++ "' found"
  | .unwantedText switch => "unexpected value for '" ++ switch.usage ++ "'"
  | .missingText switch | .emptyPath switch =>
    "a value is required for '" ++ switch.usage ++ "' but none was supplied"
  | .repeated switch => "the argument '" ++ switch.usage ++ "' cannot be used multiple times"
  | .missing switch => "the required argument '" ++ switch.usage ++ "' was not provided"

/-- The lines about a refused command line. -/
def refusalLines (verb : Option Verb) (refusal : Refusal) : List String :=
  ["error: " ++ refusal.message, "", usageLine verb, "",
   "For more information, try '--help'."]

end AgentKit.CommandLine
