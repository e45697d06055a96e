/-
# Directives

A directive is a line that begins with a percent sign. There are two: one names
the version of the notation, the other declares what a handle of tags stands for.
-/

import AgentKit.Number.Decimal
import AgentKit.Yaml.Token.Property

namespace AgentKit.Yaml

/-- The number of digits that a version number may have. -/
def versionDigits : Nat := 9

/-- Read a number of a version. -/
def readVersionNumber (cursor : Cursor) : Except Error (Nat × Cursor) :=
  let (digits, cursor) := cursor.span Number.isDigit
  if digits.isEmpty || digits.length > versionDigits then .error .badDirective
  else .ok (Number.digitsValue digits, cursor)

/-- Read the version in a directive. -/
def readVersionDirective (cursor : Cursor) : Except Error (Token × Cursor) := do
  let (major, cursor) ← readVersionNumber (cursor.skipWhile isBlank)
  if cursor.looksAt '.' then
    let (minor, cursor) ← readVersionNumber cursor.skip
    .ok (.versionDirective major minor, cursor)
  else .error .badDirective

/-- Read the handle and its image in a directive. The handle needs its second
exclamation mark unless it is the primary one. -/
def readTagDirective (cursor : Cursor) : Except Error (Token × Cursor) := do
  let (handle, cursor) ← readHandle (cursor.skipWhile isBlank)
  if handle.length > 1 && handle.getLast? != some '!' then .error .badDirective
  else if !cursor.rest.head?.any isBlank then .error .badDirective
  else
    let (text, cursor) := (cursor.skipWhile isBlank).span (isTagChar true)
    let image ← octetsOfTag text
    if text.isEmpty || !atGap cursor.rest then .error .badDirective
    else .ok (.tagDirective handle image, cursor)

/-- Read a directive, with its line. -/
def readDirective (cursor : Cursor) : Except Error (Token × Cursor) := do
  let (name, cursor) := cursor.skip.span isNameChar
  if name.isEmpty || !atGap cursor.rest then .error .badDirective
  else
    let (token, cursor) ←
      if name = "YAML".toList then readVersionDirective cursor
      else if name = "TAG".toList then readTagDirective cursor
      else .error .badDirective
    .ok (token, ← cursor.skipLineEnd .badDirective)

end AgentKit.Yaml
