/-
# Reading TOML

A reader for the part of TOML 1.0 in which a document gives texts and lists of texts to
bare keys. Numbers, dates, literal strings, tables and comments are not read. Strings are
read in full, with all their escapes: the reader refuses those that TOML refuses, and no
others.

TOML leaves one thing open: whether a line break in a string on several lines is kept as it
is written, or is a line feed even if it is written with a carriage return before it.
-/

import AgentKit.Proofs.Text.Members
import AgentKit.Yaml.Token.Quoted

namespace AgentKit.Toml

open Yaml (Escape hexValue? charOfCode?)

/-! ## Strings -/

/-- A string on one line, or on several lines between three quotes. -/
inductive Form where
  | oneLine
  | lines (keepsReturn : Bool)
  deriving DecidableEq, Repr

/-- What stands at a place inside a string. -/
inductive Mode where
  /-- A character of the text. -/
  | text
  /-- The character after a backslash. -/
  | escape
  /-- The digits of a code point: how many more are wanted, and the number so far. -/
  | code (more number : Nat)
  /-- The white space after a backslash at the end of a line, and whether the line has
  ended. -/
  | gap (ended : Bool)
  deriving DecidableEq, Repr

/-- What was read, and what is left to read. -/
abbrev Reading (α : Type) := Option (α × List Char)

/-- Put something before a text that was read. -/
def Reading.prepend (before : List Char) (reading : Reading (List Char)) : Reading (List Char) :=
  reading.map fun (text, rest) => (before ++ text, rest)

/-- A control character other than a tab. -/
def isControl (c : Char) : Bool :=
  (c.toNat < 0x20 && c != '\t') || c == '\x7f'

/-- A character of the white space that a backslash removes. -/
def isGap (c : Char) : Bool :=
  c == ' ' || c == '\t' || c == '\n' || c == '\r'

/-- The escapes of strings other than that of a line break. -/
def escapeOf? : Char → Option Escape
  | 'b' => some (.char '\x08')
  | 't' => some (.char '\t')
  | 'n' => some (.char '\n')
  | 'f' => some (.char '\x0c')
  | 'r' => some (.char '\r')
  | '"' => some (.char '"')
  | '\\' => some (.char '\\')
  | 'u' => some (.digits 4)
  | 'U' => some (.digits 8)
  | _ => none

namespace Form

/-- The end of a string behind a quote, with the quotes that are its last characters. A string
on several lines may have two of them. -/
def close : Form → List Char → Reading (List Char)
  | .oneLine, rest => some ([], rest)
  | .lines _, '"' :: '"' :: '"' :: '"' :: rest => some (['"', '"'], rest)
  | .lines _, '"' :: '"' :: '"' :: rest => some (['"'], rest)
  | .lines _, '"' :: '"' :: rest => some ([], rest)
  | .lines _, _ => none

/-- What a character other than a quote and a backslash stands for, in front of what is left. A
control character may not stand there unless it belongs to a line break. -/
def meaning? (form : Form) (c : Char) (rest : List Char) : Option (List Char) :=
  match form with
  | .oneLine => if isControl c then none else some [c]
  | .lines keepsReturn =>
    if c = '\r' then
      if rest.head? = some '\n' then some (if keepsReturn then ['\r'] else []) else none
    else if isControl c && c != '\n' then none
    else some [c]

/-- What a character turns out to be: a backslash before white space begins a gap, and a gap ends
where the text goes on. -/
def modeAt (form : Form) (mode : Mode) (c : Char) : Mode :=
  match form, mode with
  | .lines _, .escape => if isGap c then .gap false else .escape
  | _, .gap true => if isGap c then .gap true else .text
  | _, _ => mode

end Form

/-- Read a string after its opening quotes. -/
def readString (form : Form) : Mode → List Char → Reading (List Char)
  | _, [] => none
  | mode, c :: rest =>
    match form.modeAt mode c with
    | .text =>
      if c = '"' then
        match form.close rest with
        | some closed => some closed
        | none => (readString form .text rest).prepend ['"']
      else if c = '\\' then readString form .escape rest
      else
        match form.meaning? c rest with
        | some text => (readString form .text rest).prepend text
        | none => none
    | .escape =>
      match escapeOf? c with
      | some (.char meant) => (readString form .text rest).prepend [meant]
      | some (.digits count) => readString form (.code count 0) rest
      | none => none
    | .code more number =>
      match hexValue? c with
      | none => none
      | some digit =>
        if more ≤ 1 then
          match charOfCode? (number * 16 + digit) with
          | some meant => (readString form .text rest).prepend [meant]
          | none => none
        else readString form (.code (more - 1) (number * 16 + digit)) rest
    | .gap ended =>
      if c = '\n' then readString form (.gap true) rest
      else if c = '\r' && rest.head? != some '\n' then none
      else if isGap c then readString form (.gap ended) rest
      else none

theorem Reading.of_prepend {reading : Reading (List Char)} {before text rest : List Char}
    (read : reading.prepend before = some (text, rest)) : ∃ after, reading = some (after, rest) := by
  cases reading with
  | none => contradiction
  | some found =>
      obtain ⟨after, left⟩ := found
      obtain ⟨-, rfl⟩ : before ++ after = text ∧ left = rest := by simpa [prepend] using read
      exact ⟨after, rfl⟩

theorem Form.length_close {form : Form} {cs text rest : List Char}
    (closed : form.close cs = some (text, rest)) : rest.length ≤ cs.length := by
  unfold close at closed
  split at closed <;> cases closed <;> grind

/-- Reading a string takes at least its closing quote. -/
theorem length_readString {form : Form} {mode : Mode} {cs text rest : List Char}
    (read : readString form mode cs = some (text, rest)) : rest.length < cs.length := by
  fun_induction readString form mode cs generalizing text
  case case1 | case6 | case9 | case10 | case12 | case15 | case17 => contradiction
  case case2 closed ends _ =>
    rw [Option.some.inj read] at ends
    exact Nat.lt_succ_of_le (Form.length_close ends)
  case case3 ih | case5 ih | case7 ih | case11 ih =>
    obtain ⟨after, found⟩ := Reading.of_prepend read
    exact Nat.lt_succ_of_lt (ih found)
  case case4 ih | case8 ih | case13 ih | case14 ih | case16 ih =>
    exact Nat.lt_succ_of_lt (ih read)

/-- A line break directly after the opening quotes does not count. -/
def afterFirstBreak : List Char → List Char
  | '\n' :: rest => rest
  | '\r' :: '\n' :: rest => rest
  | rest => rest

/-- Read a string of either form. -/
def readText (keepsReturn : Bool) : List Char → Reading (List Char)
  | '"' :: '"' :: '"' :: rest => readString (.lines keepsReturn) .text (afterFirstBreak rest)
  | '"' :: rest => readString .oneLine .text rest
  | _ => none

theorem length_afterFirstBreak (cs : List Char) : (afterFirstBreak cs).length ≤ cs.length := by
  unfold afterFirstBreak
  split <;> grind

theorem length_readText {keepsReturn : Bool} {cs text rest : List Char}
    (read : readText keepsReturn cs = some (text, rest)) : rest.length < cs.length := by
  unfold readText at read
  split at read
  · have shorter := length_readString read
    have most := length_afterFirstBreak ‹_›
    grind
  · exact Nat.lt_succ_of_lt (length_readString read)
  · contradiction

/-! ## Documents -/

/-- What a key is given. -/
inductive Value where
  | text (text : String)
  | list (items : List String)
  deriving DecidableEq, Repr

/-- What is left behind blanks. -/
def skipBlanks (cs : List Char) : List Char :=
  cs.dropWhile fun c => c == ' ' || c == '\t'

theorem length_skipBlanks (cs : List Char) : (skipBlanks cs).length ≤ cs.length :=
  (List.dropWhile_suffix _).length_le

/-- What is left behind blanks and line breaks. -/
def skipGaps : List Char → List Char
  | ' ' :: rest | '\t' :: rest | '\n' :: rest | '\r' :: '\n' :: rest => skipGaps rest
  | rest => rest

theorem length_skipGaps (cs : List Char) : (skipGaps cs).length ≤ cs.length := by
  fun_induction skipGaps cs <;> grind

/-- Read the items of a list after its opening bracket. A comma may stand behind the last one. -/
def readItems (keepsReturn : Bool) (cs : List Char) : Reading (List String) :=
  match _ : skipGaps cs with
  | ']' :: rest => some ([], rest)
  | start =>
    match _ : readText keepsReturn start with
    | none => none
    | some (text, behind) =>
      match _ : skipGaps behind with
      | ']' :: rest => some ([String.ofList text], rest)
      | ',' :: rest =>
        (readItems keepsReturn rest).map fun (items, rest) => (String.ofList text :: items, rest)
      | _ => none
termination_by cs.length
decreasing_by
  have first := length_skipGaps cs
  have second := length_readText ‹readText keepsReturn start = some (text, behind)›
  have third := length_skipGaps behind
  grind

theorem length_readItems {keepsReturn : Bool} {cs rest : List Char} {items : List String}
    (read : readItems keepsReturn cs = some (items, rest)) : rest.length < cs.length := by
  have taken {start text behind : List Char}
      (found : readText keepsReturn (skipGaps start) = some (text, behind)) :
      (skipGaps behind).length < start.length :=
    calc
      _ ≤ behind.length := length_skipGaps behind
      _ < (skipGaps start).length := length_readText found
      _ ≤ start.length := length_skipGaps start
  fun_induction readItems keepsReturn cs generalizing items
  case case1 cs left closed =>
    have short := length_skipGaps cs
    grind
  case case2 | case5 => contradiction
  case case3 behind left closed _ found =>
    have short := taken found
    grind
  case case4 behind left comma _ found ih =>
    obtain ⟨⟨others, last⟩, more, same⟩ := Option.map_eq_some_iff.mp read
    obtain rfl : last = rest := congrArg Prod.snd same
    have short := taken found
    have shorter := ih more
    grind

/-- A text or a list of texts. -/
def readValue (keepsReturn : Bool) : List Char → Reading Value
  | '[' :: rest => (readItems keepsReturn rest).map fun (items, rest) => (.list items, rest)
  | start => (readText keepsReturn start).map fun (text, rest) => (.text (String.ofList text), rest)

theorem length_readValue {keepsReturn : Bool} {cs rest : List Char} {value : Value}
    (read : readValue keepsReturn cs = some (value, rest)) : rest.length < cs.length := by
  unfold readValue at read
  split at read
  · obtain ⟨⟨items, left⟩, found, same⟩ := Option.map_eq_some_iff.mp read
    obtain rfl : left = rest := congrArg Prod.snd same
    exact Nat.lt_succ_of_lt (length_readItems found)
  · obtain ⟨⟨text, left⟩, found, same⟩ := Option.map_eq_some_iff.mp read
    obtain rfl : left = rest := congrArg Prod.snd same
    exact length_readText found

/-- A character of a bare key. -/
def isKeyChar (c : Char) : Bool :=
  c.isAlphanum || c == '-' || c == '_'

/-- A key and what it is given. -/
def readEntry (keepsReturn : Bool) (start : List Char) : Reading (String × Value) :=
  let key := start.takeWhile isKeyChar
  match skipBlanks (start.dropWhile isKeyChar) with
  | '=' :: rest =>
    if key.isEmpty then none
    else
      (readValue keepsReturn (skipBlanks rest)).map fun (value, rest) =>
        ((String.ofList key, value), rest)
  | _ => none

theorem length_readEntry {keepsReturn : Bool} {cs rest : List Char} {entry : String × Value}
    (read : readEntry keepsReturn cs = some (entry, rest)) : rest.length < cs.length := by
  unfold readEntry at read
  have key := (List.dropWhile_suffix isKeyChar (l := cs)).length_le
  have blanks := length_skipBlanks (cs.dropWhile isKeyChar)
  dsimp only at read
  split at read
  · next given equals =>
      split at read
      · contradiction
      · obtain ⟨⟨value, left⟩, found, same⟩ := Option.map_eq_some_iff.mp read
        obtain rfl : left = rest := congrArg Prod.snd same
        have value := length_readValue found
        have more := length_skipBlanks given
        grind
  · contradiction

/-- What is left behind the end of a line. -/
def lineEnd? (cs : List Char) : Option (List Char) :=
  match skipBlanks cs with
  | [] => some []
  | '\n' :: rest | '\r' :: '\n' :: rest => some rest
  | _ => none

theorem length_lineEnd? {cs rest : List Char} (ended : lineEnd? cs = some rest) :
    rest.length ≤ cs.length := by
  have blanks := length_skipBlanks cs
  unfold lineEnd? at ended
  split at ended <;> grind

/-- Read the entries of a document, one on a line. -/
def readEntries (keepsReturn : Bool) (cs : List Char) : Option (List (String × Value)) :=
  match _ : skipGaps cs with
  | [] => some []
  | start =>
    match _ : readEntry keepsReturn start with
    | none => none
    | some (entry, behind) =>
      match _ : lineEnd? behind with
      | none => none
      | some rest => (readEntries keepsReturn rest).map (entry :: ·)
termination_by cs.length
decreasing_by
  have first := length_skipGaps cs
  have second := length_readEntry ‹readEntry keepsReturn start = some (entry, behind)›
  have third := length_lineEnd? ‹lineEnd? behind = some rest›
  grind

/-- Read a document, in which no key may be given twice. -/
def read (keepsReturn : Bool) (document : String) : Option (List (String × Value)) :=
  (readEntries keepsReturn document.toList).filter fun entries => (entries.map (·.1)).Nodup

end AgentKit.Toml
