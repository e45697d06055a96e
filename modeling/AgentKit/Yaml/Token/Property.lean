/-
# Anchors, aliases and tags

Names of anchors consist of ASCII letters, digits, hyphens and underscores. A tag
is written in full between angle brackets, or as a handle and what follows it. The
characters of a tag are those of a resource identifier; a percent sign and two
hexadecimal digits stand for an octet.
-/

import AgentKit.Yaml.Cursor
import AgentKit.Yaml.Token

namespace AgentKit.Yaml

/-- Whether a character may directly follow the name of an anchor or alias. -/
def endsName (c : Char) : Bool :=
  !isSolid c || ['?', ':', ',', ']', '\x7d', '%', '@', '\x60'].contains c

/-- Read the name of an anchor or alias after its indicator. -/
def readName (cursor : Cursor) : Except Error (List Char × Cursor) :=
  let (name, cursor) := cursor.span isNameChar
  if name.isEmpty || !cursor.rest.head?.all endsName then .error .malformedAnchor
  else .ok (name, cursor)

/-- The punctuation that may stand in a tag. -/
def tagPunctuation : List Char :=
  [';', '/', '?', ':', '@', '&', '=', '+', '$', '.', '%', '!', '~', '*', '\'', '(', ')']

/-- The punctuation that may stand in a tag where flow collections cannot be
confused with it. -/
def verbatimPunctuation : List Char := [',', '[', ']']

/-- Whether a character may stand in a tag. -/
def isTagChar (verbatim : Bool) (c : Char) : Bool :=
  isNameChar c || tagPunctuation.contains c || (verbatim && verbatimPunctuation.contains c)

/-- The number of octets in the encoding of a character, told from the first of
them; zero if no encoding begins so. -/
def encodedLength (first : UInt8) : Nat :=
  if first &&& 0x80 = 0 then 1
  else if first &&& 0xE0 = 0xC0 then 2
  else if first &&& 0xF0 = 0xE0 then 3
  else if first &&& 0xF8 = 0xF0 then 4
  else 0

/-- The octet that two hexadecimal digits write. -/
def octetOf? (high low : Char) : Option UInt8 := do
  let digit (c : Char) : Option Nat :=
    if '0' ≤ c && c ≤ '9' then some (c.toNat - '0'.toNat)
    else if 'a' ≤ c && c ≤ 'f' then some (c.toNat - 'a'.toNat + 10)
    else if 'A' ≤ c && c ≤ 'F' then some (c.toNat - 'A'.toNat + 10)
    else none
  pure (UInt8.ofNat ((← digit high) * 16 + (← digit low)))

/-- The octets of the characters of a tag. `more` says how many octets of an
encoded character must still be written as escapes. -/
def tagOctets (more : Nat) : List Char → Option (List UInt8)
  | [] => if more = 0 then some [] else none
  | '%' :: high :: low :: rest => do
    let octet ← octetOf? high low
    if more = 0 then
      let length := encodedLength octet
      if length = 0 then none else (octet :: ·) <$> tagOctets (length - 1) rest
    else if octet &&& 0xC0 = 0x80 then (octet :: ·) <$> tagOctets (more - 1) rest
    else none
  | c :: rest =>
    if more = 0 && c != '%' then ((String.singleton c).toUTF8.toList ++ ·) <$> tagOctets 0 rest
    else none

/-- The octets of a tag. A zero octet ends it. -/
def octetsOfTag (cs : List Char) : Except Error (List UInt8) :=
  match tagOctets 0 cs with
  | some octets => .ok (octets.takeWhile (· != 0))
  | none => .error .badTag

/-- Read a handle: an exclamation mark, a name that may be empty and, where there
is one, a second exclamation mark. -/
def readHandle (cursor : Cursor) : Except Error (List Char × Cursor) :=
  if !cursor.looksAt '!' then .error .badTag
  else
    let (name, cursor) := cursor.skip.span isNameChar
    if cursor.looksAt '!' then .ok ('!' :: (name ++ ['!']), cursor.skip)
    else .ok ('!' :: name, cursor)

/-- Read a tag between angle brackets, after the opening one. -/
def readVerbatimTag (cursor : Cursor) : Except Error (TagToken × Cursor) := do
  let (text, cursor) := cursor.span (isTagChar true)
  if text.isEmpty then .error .badTag
  else
    let suffix ← octetsOfTag text
    if cursor.looksAt '>' then .ok (⟨[], suffix⟩, cursor.skip) else .error .badTag

/-- Read a tag that begins with a handle. A text that has no second exclamation
mark belongs to the primary handle; a lone exclamation mark is a tag of its own. -/
def readShorthandTag (cursor : Cursor) : Except Error (TagToken × Cursor) := do
  let (handle, cursor) ← readHandle cursor
  let (text, cursor) := cursor.span (isTagChar false)
  if handle.length > 1 && handle.getLast? == some '!' then
    if text.isEmpty then .error .badTag else .ok (⟨handle, ← octetsOfTag text⟩, cursor)
  else
    let suffix ← octetsOfTag (handle.tail ++ text)
    if suffix.isEmpty then .ok (⟨[], [0x21]⟩, cursor) else .ok (⟨['!'], suffix⟩, cursor)

/-- Read a tag, up to the gap behind it. Inside flow collections a comma may
follow it too. -/
def readTag (inFlow : Bool) (cursor : Cursor) : Except Error (TagToken × Cursor) := do
  let (tag, cursor) ←
    if cursor.skip.looksAt '<' then readVerbatimTag (cursor.skipMany 2)
    else readShorthandTag cursor
  if atGap cursor.rest || (inFlow && cursor.looksAt ',') then .ok (tag, cursor)
  else .error .badTag

end AgentKit.Yaml
