/-
# Positions in a text

A cursor is a position in a text together with the text from there on. The line
and the column decide what a token means; the index limits how far a colon may
stand from the beginning of its key. Lines and columns count characters, the index
counts octets.
-/

import AgentKit.Yaml.Character

namespace AgentKit.Yaml

/-- A position: how many line breaks are before it, how many characters since the
last of them, and how many octets in all. -/
structure Mark where
  line : Nat
  column : Nat
  index : Nat
  deriving DecidableEq, Repr

/-- The position before a text. -/
def Mark.start : Mark := ⟨0, 0, 0⟩

/-- The position after one more character. -/
def Mark.next (mark : Mark) (c : Char) : Mark :=
  if isBreak c then ⟨mark.line + 1, 0, mark.index + c.utf8Size⟩
  else ⟨mark.line, mark.column + 1, mark.index + c.utf8Size⟩

/-- The position after a text. -/
def Mark.over (mark : Mark) (cs : List Char) : Mark :=
  cs.foldl Mark.next mark

/-- A position in a text and what stands there. -/
structure Cursor where
  mark : Mark
  rest : List Char
  deriving DecidableEq, Repr

namespace Cursor

/-- The cursor at the start of a text. -/
def ofText (cs : List Char) : Cursor := ⟨.start, cs⟩

/-- Move over one character. -/
def skip (cursor : Cursor) : Cursor :=
  match cursor.rest with
  | [] => cursor
  | c :: rest => ⟨cursor.mark.next c, rest⟩

/-- Move over a number of characters. -/
def skipMany (cursor : Cursor) (count : Nat) : Cursor :=
  ⟨cursor.mark.over (cursor.rest.take count), cursor.rest.drop count⟩

/-- Move over the longest run of characters of a class, and return the run. -/
def span (cursor : Cursor) (p : Char → Bool) : List Char × Cursor :=
  let run := cursor.rest.takeWhile p
  (run, ⟨cursor.mark.over run, cursor.rest.dropWhile p⟩)

/-- Move over the longest run of characters of a class. -/
def skipWhile (cursor : Cursor) (p : Char → Bool) : Cursor :=
  (cursor.span p).2

/-- Whether a given character stands at the cursor. -/
def looksAt (cursor : Cursor) (c : Char) : Bool :=
  cursor.rest.head? == some c

/-- Move over a comment, if one stands at the cursor. -/
def skipComment (cursor : Cursor) : Cursor :=
  if cursor.looksAt '#' then cursor.skipWhile (!isBreak ·) else cursor

/-- Move over the remainder of a line that may only hold blanks and a comment, and
over its line break. -/
def skipLineEnd (cursor : Cursor) (otherwise : Error) : Except Error Cursor :=
  let cursor := (cursor.skipWhile isBlank).skipComment
  match cursor.rest with
  | [] => .ok cursor
  | c :: _ => if isBreak c then .ok cursor.skip else .error otherwise

end Cursor

end AgentKit.Yaml
