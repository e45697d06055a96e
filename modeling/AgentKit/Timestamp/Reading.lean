/-
# Reading points in time

The notation that is read is wider than the one that is written: blanks may stand
around the parts, numbers may have fewer digits, and the time of day may be given
for another time zone, from which it is converted.
-/

import AgentKit.Number.Decimal
import AgentKit.Text.Blank
import AgentKit.Timestamp

namespace AgentKit.Timestamp

open AgentKit.Number

/-- Read a number of at least one and at most `width` digits, after blanks. -/
def readNumber (width : Nat) (cs : List Char) : Option (Nat × List Char) :=
  let cs := Text.trimStart cs
  let digits := (cs.take width).takeWhile isDigit
  if digits.isEmpty then none else some (digitsValue digits, cs.drop digits.length)

/-- Read a character that must follow, after blanks. -/
def readMark (mark : Char) (cs : List Char) : Option (List Char) :=
  match Text.trimStart cs with
  | [] => none
  | c :: rest => if c = mark then some rest else none

/-- Read a number of any length, without blanks before it. -/
def readUnbounded (cs : List Char) : Option (Nat × List Char) :=
  let digits := cs.takeWhile isDigit
  if digits.isEmpty then none else some (digitsValue digits, cs.dropWhile isDigit)

/-- Read a year: up to four digits, or a sign and any number of digits. -/
def readYear (cs : List Char) : Option (Int × List Char) :=
  match Text.trimStart cs with
  | '-' :: rest => (readUnbounded rest).map fun (value, rest) => (-(value : Int), rest)
  | '+' :: rest => (readUnbounded rest).map fun (value, rest) => ((value : Int), rest)
  | cs => (readNumber 4 cs).map fun (value, rest) => ((value : Int), rest)

/-- Read a date that is a day of the calendar. -/
def readDate (cs : List Char) : Option (Calendar.Date × List Char) := do
  let (year, cs) ← readYear cs
  let (month, cs) ← readNumber 2 (← readMark '-' cs)
  let (day, cs) ← readNumber 2 (← readMark '-' cs)
  let date ← Calendar.Date.checked ⟨year, month, day⟩
  some (date, cs)

/-- Read the fraction of a second, if there is one, as nanoseconds. Digits beyond the
ninth are passed over. -/
def readFraction : List Char → Option (Nat × List Char)
  | '.' :: cs =>
    let digits := (cs.take 9).takeWhile isDigit
    if digits.isEmpty then none
    else
      some (digitsValue digits * Nat.pow 10 (9 - digits.length),
        (cs.drop digits.length).dropWhile isDigit)
  | cs => some (0, cs)

/-- Read the minutes that a time zone is ahead of universal time: a sign, two digits
of hours and two of minutes, with colons and blanks between them. -/
def readOffset (cs : List Char) : Option (Int × List Char) :=
  match cs with
  | sign :: h :: h' :: rest =>
    let rest := rest.dropWhile fun c => c = ':' || Text.isBlank c
    match rest with
    | m :: m' :: rest =>
      if [h, h', m, m'].all isDigit && m < '6' then
        let minutes : Int := digitsValue [h, h'] * 60 + digitsValue [m, m']
        if sign = '+' then some (minutes, rest)
        else if sign = '-' || sign = '\u2212' then some (-minutes, rest)
        else none
      else none
    | _ => none
  | _ => none

/-- Read a time zone: a Z, the letters UTC in any case, or an offset. -/
def readZone (cs : List Char) : Option (Int × List Char) :=
  if (cs.take 3).map Char.toUpper = ['U', 'T', 'C'] then some (0, cs.drop 3)
  else
    match cs with
    | 'Z' :: rest | 'z' :: rest => some (0, rest)
    | _ => readOffset cs

/-- The number of minutes of a day. -/
def minutesOfDay : Int := 1440

/-- The date and the minute of the day, for a minute that may lie on the day before or
after. -/
def carryDay (date : Calendar.Date) (minute : Int) : Option (Calendar.Date × Int) :=
  if minute < 0 then date.previous.map (·, minute + minutesOfDay)
  else if minute ≥ minutesOfDay then date.next.map (·, minute - minutesOfDay)
  else some (date, minute)

/-- The point in time at a time of day in a time zone that is ahead by some minutes. -/
def ofLocal (date : Calendar.Date) (hour minute second nanosecond : Nat) (offset : Int) :
    Option Timestamp := do
  if hour > 23 || minute > 59 || second > 60 || offset.natAbs ≥ minutesOfDay.toNat then none
  else
    let (date, minute) ← carryDay date (hour * 60 + minute - offset)
    some ⟨date, minute.toNat / 60, minute.toNat % 60, second, nanosecond⟩

/-- The point in time that a text writes. -/
def ofText? (text : String) : Option Timestamp := do
  let (date, cs) ← readDate text.toList
  match cs with
  | c :: cs =>
    if c = 't' || c = 'T' || c = ' ' then
      let (hour, cs) ← readNumber 2 cs
      let (minute, cs) ← readNumber 2 (← readMark ':' cs)
      let (second, cs) ← readNumber 2 (← readMark ':' cs)
      let (nanosecond, cs) ← readFraction cs
      let (offset, cs) ← readZone (Text.trimStart cs)
      if (Text.trimStart cs).isEmpty then
        ofLocal date hour minute second nanosecond offset
      else none
    else none
  | [] => none

end AgentKit.Timestamp
