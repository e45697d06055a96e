/-
# Faults of file operations

Why an operation on files fails. Most faults have a number, which is part of their
wording.
-/

namespace AgentKit.Files

/-- A reason for which an operation on files fails. -/
inductive Fault where
  /-- A part of the path is not there. -/
  | notFound
  /-- The place of a removed or replaced entry is in use. -/
  | busy
  /-- There is something at the path already. -/
  | alreadyThere
  /-- A part of the path that has to be a directory is a file. -/
  | notDirectory
  /-- There is a directory where a file is wanted. -/
  | isDirectory
  /-- What is to be replaced is given by a text that is no path. -/
  | invalidArgument
  /-- A name, or the whole path, is too long. -/
  | nameTooLong
  /-- The path has a zero character, which no path may have. -/
  | zeroInPath
  /-- The bytes of a file are not text. -/
  | notText
  deriving DecidableEq, Repr

namespace Fault

/-- The wording and the number of a numbered fault. -/
def numbered (wording : String) (number : Nat) : String :=
  wording ++ " (os error " ++ toString number ++ ")"

/-- The wording of a fault. -/
def message : Fault → String
  | .notFound => numbered "No such file or directory" 2
  | .busy => numbered "Device or resource busy" 16
  | .alreadyThere => numbered "File exists" 17
  | .notDirectory => numbered "Not a directory" 20
  | .isDirectory => numbered "Is a directory" 21
  | .invalidArgument => numbered "Invalid argument" 22
  | .nameTooLong => numbered "File name too long" 36
  | .zeroInPath => "file name contained an unexpected NUL byte"
  | .notText => "stream did not contain valid UTF-8"

end Fault

end AgentKit.Files
