/-
# Tokens of YAML

A text is read as a list of tokens. Indentation is made explicit: a block sequence
or mapping has a token at its start and one at its end, and a key has a token in
front of it even where the text has none. The end of the text is the end of the
list.
-/

namespace AgentKit.Yaml

/-- How a scalar is written. -/
inductive ScalarStyle where
  | plain
  | singleQuoted
  | doubleQuoted
  | literal
  | folded
  deriving DecidableEq, Repr

/-- A tag as it is written: the handle and what follows it. Escapes can write any
octets, so what follows the handle is kept as octets. An empty handle leaves the
tag as it is. -/
structure TagToken where
  handle : List Char
  suffix : List UInt8
  deriving DecidableEq, Repr

/-- A token of YAML. -/
inductive Token where
  | versionDirective (major minor : Nat)
  | tagDirective (handle : List Char) (image : List UInt8)
  | documentStart
  | documentEnd
  | blockSequenceStart
  | blockMappingStart
  | blockEnd
  | flowSequenceStart
  | flowSequenceEnd
  | flowMappingStart
  | flowMappingEnd
  | blockEntry
  | flowEntry
  | key
  | value
  | alias (name : List Char)
  | anchor (name : List Char)
  | tag (tag : TagToken)
  | scalar (style : ScalarStyle) (text : List Char)
  deriving DecidableEq, Repr

end AgentKit.Yaml
