/-
# Failures

The causes for which loading, installing or keeping settings fails as a whole,
with their wordings. A definition that is merely skipped is no failure.
-/

import AgentKit.Files.Fault
import AgentKit.Files.Path
import AgentKit.Yaml.Error

namespace AgentKit

/-- A cause of failure. -/
inductive Failure where
  /-- The directory of definitions is not there. -/
  | definitionsNotFound (path : Path)
  /-- A text names no target. -/
  | unknownTarget (name : String)
  /-- A key names no stack profile. -/
  | unknownProfile (key : String)
  /-- A file or directory cannot be written. -/
  | write (path : Path) (fault : Files.Fault)
  /-- A file cannot be read or replaced. -/
  | files (fault : Files.Fault)
  /-- The settings cannot be understood. -/
  | settings (error : Yaml.Error)
  deriving DecidableEq, Repr

/-- The wording of a reason for which a text is refused. -/
def Yaml.Error.message : Yaml.Error → String
  | .forbiddenCharacter => "control characters are not allowed"
  | .unexpectedCharacter => "found a character that begins no token"
  | .tabInIndentation => "found a tab where indentation is expected"
  | .missingColon => "could not find the colon after a key"
  | .misplacedIndicator => "found an item, key or value where none may stand"
  | .unclosedQuote => "found no end of a quoted text"
  | .unknownEscape => "found an unknown escape"
  | .malformedBlockHeader => "found a malformed first line of a block text"
  | .badDirective => "found a directive that is not supported"
  | .malformedAnchor => "found a malformed anchor or alias"
  | .badTag => "found a malformed or undeclared tag"
  | .unexpectedToken => "found a token that does not fit"
  | .severalDocuments => "found more than one document"
  | .unknownAlias => "found an unknown alias"
  | .tooDeep => "found collections that are nested too deeply"
  | .tooManyAliases => "followed aliases too often"
  | .duplicateKey => "found a key twice"
  | .badScalar => "found a scalar that its kind does not admit"
  | .wrongKind => "found a value of another kind than expected"

namespace Failure

/-- The wording of a failure. -/
def message : Failure → String
  | .definitionsNotFound path => "definitions directory not found: " ++ path
  | .unknownTarget name =>
    "unknown target '" ++ name ++ "' (run 'sdd targets' for the supported list)"
  | .unknownProfile key =>
    "unknown stack profile '" ++ key ++ "' (run 'sdd profiles' for the supported list)"
  | .write path fault => "failed to write " ++ path ++ ": " ++ fault.message
  | .files fault => fault.message
  | .settings error => error.message

/-- The wordings of the causes behind a failure. -/
def causes : Failure → List String
  | .write _ fault => [fault.message]
  | _ => []

end Failure

end AgentKit
