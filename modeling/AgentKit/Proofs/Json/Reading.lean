/-
# Reading JSON

A reader for JSON documents. Strings are read in full: an escape may be a letter, a code unit
of four hexadecimal digits, or two halves of a character beyond the first plane, and a control
character may not stand there by itself. White space may stand wherever JSON allows it.

Numbers are counts here, so the reader refuses a number with a sign, a fraction or an exponent.
Otherwise it refuses what JSON refuses, and nothing else. A value is read with whatever follows
it left over; how many values may be opened one after the other is bounded by a number, for
which the length of the document is enough.
-/

import AgentKit.Json
import AgentKit.Number.Decimal
import AgentKit.Yaml.Token.Quoted
import Mathlib.Data.List.TakeWhile

namespace AgentKit.Json

open Yaml (hexValue? charOfCode?)

/-- What was read, and what is left to read. -/
abbrev Reading (α : Type) := Option (α × List Char)

/-- White space between the parts of a document. -/
def isSpace (c : Char) : Bool :=
  c == ' ' || c == '\t' || c == '\n' || c == '\r'

/-- What is left behind white space. -/
def skipSpace (cs : List Char) : List Char :=
  cs.dropWhile isSpace

/-! ## Strings -/

/-- The character that a letter behind a backslash stands for. -/
def letterOf? : Char → Option Char
  | '"' => some '"'
  | '\\' => some '\\'
  | '/' => some '/'
  | 'b' => some '\x08'
  | 'f' => some '\x0c'
  | 'n' => some '\n'
  | 'r' => some '\r'
  | 't' => some '\t'
  | _ => none

/-- Read a code unit of four hexadecimal digits. -/
def readUnit : List Char → Reading Nat
  | a :: b :: c :: d :: rest =>
    match hexValue? a, hexValue? b, hexValue? c, hexValue? d with
    | some a, some b, some c, some d => some (((a * 16 + b) * 16 + c) * 16 + d, rest)
    | _, _, _, _ => none
  | _ => none

/-- The character of two code units that are halves of it. -/
def pairOf? (high low : Nat) : Option Char :=
  if 0xD800 ≤ high ∧ high < 0xDC00 ∧ 0xDC00 ≤ low ∧ low < 0xE000 then
    charOfCode? (0x10000 + (high - 0xD800) * 0x400 + (low - 0xDC00))
  else none

/-- Read the character of a code unit. One that is half of a character needs the other half. -/
def readCode (cs : List Char) : Reading Char :=
  match readUnit cs with
  | none => none
  | some (unit, rest) =>
    match charOfCode? unit with
    | some c => some (c, rest)
    | none =>
      match rest with
      | '\\' :: 'u' :: other =>
        match readUnit other with
        | some (low, rest) => (pairOf? unit low).map (·, rest)
        | none => none
      | _ => none

/-- Read one character of a text. -/
def readChar : List Char → Reading Char
  | '\\' :: 'u' :: rest => readCode rest
  | '\\' :: c :: rest => (letterOf? c).map (·, rest)
  | c :: rest => if c = '\\' ∨ c.toNat < 0x20 then none else some (c, rest)
  | [] => none

theorem length_readUnit {cs rest : List Char} {unit : Nat}
    (read : readUnit cs = some (unit, rest)) : rest.length < cs.length := by
  unfold readUnit at read
  split at read
  · split at read
    · cases read
      grind
    · contradiction
  · contradiction

theorem length_readCode {cs rest : List Char} {c : Char} (read : readCode cs = some (c, rest)) :
    rest.length < cs.length := by
  unfold readCode at read
  split at read
  · contradiction
  · next unit behind first =>
    have shorter := length_readUnit first
    split at read
    · cases read
      exact shorter
    · split at read
      · next other =>
        split at read
        · next low last second =>
          have least := length_readUnit second
          obtain ⟨_, _, same⟩ := Option.map_eq_some_iff.mp read
          obtain rfl : last = rest := congrArg Prod.snd same
          grind
        · contradiction
      · contradiction

theorem length_readChar {cs rest : List Char} {c : Char} (read : readChar cs = some (c, rest)) :
    rest.length < cs.length := by
  unfold readChar at read
  split at read
  · have shorter := length_readCode read
    grind
  · obtain ⟨_, _, same⟩ := Option.map_eq_some_iff.mp read
    obtain rfl := congrArg Prod.snd same
    grind
  · split at read
    · contradiction
    · cases read
      grind
  · contradiction

/-- Read a text up to the quote behind it. -/
def readString (cs : List Char) : Reading (List Char) :=
  match cs with
  | '"' :: rest => some ([], rest)
  | start =>
    match _ : readChar start with
    | none => none
    | some (c, rest) => (readString rest).map fun (text, rest) => (c :: text, rest)
termination_by cs.length
decreasing_by exact length_readChar ‹readChar start = some (c, rest)›

/-! ## Values -/

/-- Read a count. It has no zeros in front. -/
def readCount (cs : List Char) : Reading Nat :=
  let digits := cs.takeWhile Number.isDigit
  if digits = [] ∨ digits.head? = some '0' ∧ digits ≠ ['0'] then none
  else some (Number.digitsValue digits, cs.dropWhile Number.isDigit)

/-- Read a word or a count. -/
def readAtom : List Char → Reading Json
  | 'n' :: 'u' :: 'l' :: 'l' :: rest => some (.null, rest)
  | 't' :: 'r' :: 'u' :: 'e' :: rest => some (.bool true, rest)
  | 'f' :: 'a' :: 'l' :: 's' :: 'e' :: rest => some (.bool false, rest)
  | start => (readCount start).map fun (count, rest) => (.number count, rest)

/-- Read a key and the colon behind it. -/
def readKey (start : List Char) : Reading String :=
  match start with
  | '"' :: rest =>
    match readString rest with
    | none => none
    | some (key, behind) =>
      match skipSpace behind with
      | ':' :: rest => some (String.ofList key, rest)
      | _ => none
  | _ => none

mutual

/-- Read a value that begins here. -/
def readValue : Nat → List Char → Reading Json
  | 0, _ => none
  | limit + 1, start =>
    match start with
    | '"' :: rest => (readString rest).map fun (text, rest) => (.string (String.ofList text), rest)
    | '[' :: rest =>
      match skipSpace rest with
      | ']' :: rest => some (.array [], rest)
      | _ => (readItems limit rest).map fun (items, rest) => (.array items, rest)
    | '\x7b' :: rest =>
      match skipSpace rest with
      | '\x7d' :: rest => some (.object [], rest)
      | _ => (readMembers limit rest).map fun (members, rest) => (.object members, rest)
    | _ => readAtom start

/-- Read one or more items of a list, and its end. -/
def readItems : Nat → List Char → Reading (List Json)
  | 0, _ => none
  | limit + 1, start =>
    match readValue limit (skipSpace start) with
    | none => none
    | some (item, behind) =>
      match skipSpace behind with
      | ',' :: rest => (readItems limit rest).map fun (items, rest) => (item :: items, rest)
      | ']' :: rest => some ([item], rest)
      | _ => none

/-- Read one or more members of an object, and its end. -/
def readMembers : Nat → List Char → Reading (List (String × Json))
  | 0, _ => none
  | limit + 1, start =>
    match readKey (skipSpace start) with
    | none => none
    | some (key, given) =>
      match readValue limit (skipSpace given) with
      | none => none
      | some (value, behind) =>
        match skipSpace behind with
        | ',' :: rest =>
          (readMembers limit rest).map fun (members, rest) => ((key, value) :: members, rest)
        | '\x7d' :: rest => some ([(key, value)], rest)
        | _ => none

end

/-- Read a document: one value, with nothing but white space around it. -/
def read (document : String) : Option Json :=
  match readValue document.length (skipSpace document.toList) with
  | none => none
  | some (value, rest) => if skipSpace rest = [] then some value else none

end AgentKit.Json
