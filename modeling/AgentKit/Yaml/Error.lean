/-
# Reasons for which YAML text is refused

The reasons are those that reading a text as a value, or as the settings of a
project, can meet. None of them is ever shown in detail; they are kept apart so
that statements about refused texts can name them.
-/

namespace AgentKit.Yaml

/-- A reason for which a text is refused. -/
inductive Error where
  /-- A control character or another character that no document may hold. -/
  | forbiddenCharacter
  /-- A character that begins no token. -/
  | unexpectedCharacter
  /-- A tab where indentation is expected. -/
  | tabInIndentation
  /-- A key that had to be followed by a colon and was not. -/
  | missingColon
  /-- An item, a key or a value where none may stand. -/
  | misplacedIndicator
  /-- A quoted text without its closing quote. -/
  | unclosedQuote
  /-- An escape sequence that stands for no character. -/
  | unknownEscape
  /-- A malformed first line of a block text. -/
  | malformedBlockHeader
  /-- A malformed, unknown, repeated or unsupported directive. -/
  | badDirective
  /-- A malformed anchor or alias. -/
  | malformedAnchor
  /-- A malformed tag, or one whose handle is not declared. -/
  | badTag
  /-- A token that does not fit the structure around it. -/
  | unexpectedToken
  /-- More than one document. -/
  | severalDocuments
  /-- An alias without an anchor before it. -/
  | unknownAlias
  /-- Collections nested too deeply. -/
  | tooDeep
  /-- Aliases followed too often. -/
  | tooManyAliases
  /-- A mapping with the same key twice. -/
  | duplicateKey
  /-- A scalar that its tag does not admit, or an integer out of range. -/
  | badScalar
  /-- A value of another kind than the one that is wanted. -/
  | wrongKind
  deriving DecidableEq, Repr

end AgentKit.Yaml
