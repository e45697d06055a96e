/-
# Quoted scalars

A quoted scalar may run over several lines. In single quotes the only special form
is the quote written twice. In double quotes a backslash begins an escape: a
letter, a hexadecimal number of fixed length, or a line break that is dropped.
-/

import AgentKit.Yaml.Cursor
import AgentKit.Yaml.Token.Gap

namespace AgentKit.Yaml

/-- What stands at the cursor inside a double-quoted scalar. -/
inductive QuoteState where
  /-- Text after a gap. -/
  | text (gap : Gap)
  /-- The character after a backslash. -/
  | escape
  /-- The hexadecimal digits of an escape: how many more are wanted, and the number
  that was read so far. -/
  | code (more : Nat) (number : Nat)
  deriving DecidableEq, Repr

/-- What the character after a backslash means: a character, or a number of
hexadecimal digits that follow. -/
inductive Escape where
  | char (c : Char)
  | digits (count : Nat)
  deriving DecidableEq, Repr

/-- The escapes of double-quoted scalars other than the line break. -/
def escapeOf? (c : Char) : Option Escape :=
  match c with
  | '0' => some (.char '\x00')
  | 'a' => some (.char '\x07')
  | 'b' => some (.char '\x08')
  | 't' | '\t' => some (.char '\t')
  | 'n' => some (.char '\n')
  | 'v' => some (.char '\x0b')
  | 'f' => some (.char '\x0c')
  | 'r' => some (.char '\r')
  | 'e' => some (.char '\x1b')
  | ' ' => some (.char ' ')
  | '"' => some (.char '"')
  | '/' => some (.char '/')
  | '\\' => some (.char '\\')
  | 'N' => some (.char '\u0085')
  | '_' => some (.char '\u00a0')
  | 'L' => some (.char '\u2028')
  | 'P' => some (.char '\u2029')
  | 'x' => some (.digits 2)
  | 'u' => some (.digits 4)
  | 'U' => some (.digits 8)
  | _ => none

/-- The value of a hexadecimal digit. -/
def hexValue? (c : Char) : Option Nat :=
  if '0' ≤ c && c ≤ '9' then some (c.toNat - '0'.toNat)
  else if 'a' ≤ c && c ≤ 'f' then some (c.toNat - 'a'.toNat + 10)
  else if 'A' ≤ c && c ≤ 'F' then some (c.toNat - 'A'.toNat + 10)
  else none

/-- The character with a given code point, if there is one. -/
def charOfCode? (code : Nat) : Option Char :=
  if h : code.isValidChar then some (Char.ofNatAux code h) else none

/-- A text that was read, and the cursor behind it. -/
structure TextReading where
  text : List Char
  cursor : Cursor
  deriving DecidableEq, Repr

/-- Read a single-quoted scalar after its opening quote. `text` is what was read
so far, the last character first, and `gap` is what was passed since. -/
def readSingleQuoted (mark : Mark) (gap : Gap) (text : List Char) :
    List Char → Except Error TextReading
  | [] => .error .unclosedQuote
  | '\'' :: '\'' :: rest =>
    readSingleQuoted ((mark.next '\'').next '\'') .none
      ('\'' :: (gap.text.reverse ++ text)) rest
  | c :: rest =>
    if isBlank c then readSingleQuoted (mark.next c) (gap.addBlank c) text rest
    else if isBreak c then readSingleQuoted (mark.next c) (gap.addBreak c) text rest
    else if mark.column = 0 && atDocumentMark (c :: rest) then .error .unclosedQuote
    else if c = '\'' then
      .ok ⟨(gap.text.reverse ++ text).reverse, ⟨mark.next c, rest⟩⟩
    else readSingleQuoted (mark.next c) .none (c :: (gap.text.reverse ++ text)) rest

/-- Read a double-quoted scalar after its opening quote. `text` is what was read
so far, the last character first. -/
def readDoubleQuoted (mark : Mark) (state : QuoteState) (text : List Char) :
    List Char → Except Error TextReading
  | [] => .error .unclosedQuote
  | c :: rest =>
    match state with
    | .text gap =>
      if isBlank c then readDoubleQuoted (mark.next c) (.text (gap.addBlank c)) text rest
      else if isBreak c then
        readDoubleQuoted (mark.next c) (.text (gap.addBreak c)) text rest
      else if mark.column = 0 && atDocumentMark (c :: rest) then .error .unclosedQuote
      else if c = '"' then .ok ⟨(gap.text.reverse ++ text).reverse, ⟨mark.next c, rest⟩⟩
      else if c = '\\' then
        readDoubleQuoted (mark.next c) .escape (gap.text.reverse ++ text) rest
      else readDoubleQuoted (mark.next c) (.text .none) (c :: (gap.text.reverse ++ text)) rest
    | .escape =>
      if isBreak c then
        readDoubleQuoted (mark.next c) (.text (.breaks none [])) text rest
      else
        match escapeOf? c with
        | some (.char meant) => readDoubleQuoted (mark.next c) (.text .none) (meant :: text) rest
        | some (.digits count) => readDoubleQuoted (mark.next c) (.code count 0) text rest
        | none => .error .unknownEscape
    | .code more number =>
      match hexValue? c with
      | none => .error .unknownEscape
      | some digit =>
        let number := number * 16 + digit
        if more ≤ 1 then
          match charOfCode? number with
          | some meant =>
            readDoubleQuoted (mark.next c) (.text .none) (meant :: text) rest
          | none => .error .unknownEscape
        else readDoubleQuoted (mark.next c) (.code (more - 1) number) text rest

end AgentKit.Yaml
