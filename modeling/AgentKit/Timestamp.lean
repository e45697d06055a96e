/-
# Points in time

A point in time is a date and a time of day in universal time, to the nanosecond.
The last minute of a day may have a sixty-first second. It is written with the
fewest groups of three decimals that are exact, and with a Z for the time zone.
-/

import AgentKit.Calendar.Date

namespace AgentKit

/-- A point in time. -/
structure Timestamp where
  date : Calendar.Date
  hour : Nat
  minute : Nat
  second : Nat
  nanosecond : Nat
  deriving DecidableEq, Repr

namespace Timestamp

/-- A number in decimal digits, with zeros in front up to a least length. -/
def padded (width value : Nat) : String :=
  let digits := Nat.toDigits 10 value
  String.ofList (List.replicate (width - digits.length) '0' ++ digits)

/-- A year in four digits. A year that needs more, or lies before the year zero, has
its sign in front. -/
def yearText (year : Int) : String :=
  if year < 0 then "-" ++ padded 4 year.natAbs
  else if year > 9999 then "+" ++ padded 4 year.natAbs
  else padded 4 year.natAbs

/-- A date as the year, the month and the day. -/
def dateText (date : Calendar.Date) : String :=
  yearText date.year ++ "-" ++ padded 2 date.month ++ "-" ++ padded 2 date.day

/-- The fraction of a second, in as few groups of three digits as are exact. -/
def fractionText (nanosecond : Nat) : String :=
  if nanosecond = 0 then ""
  else if nanosecond % 1000000 = 0 then "." ++ padded 3 (nanosecond / 1000000)
  else if nanosecond % 1000 = 0 then "." ++ padded 6 (nanosecond / 1000)
  else "." ++ padded 9 nanosecond

/-- The hour and the minute of a point in time. -/
def clockText (time : Timestamp) : String :=
  padded 2 time.hour ++ ":" ++ padded 2 time.minute

/-- The full text of a point in time. -/
def toText (time : Timestamp) : String :=
  dateText time.date ++ "T" ++ clockText time ++ ":" ++ padded 2 time.second ++
    fractionText time.nanosecond ++ "Z"

/-- A point in time to the minute, for display. -/
def display (time : Timestamp) : String :=
  dateText time.date ++ " " ++ clockText time ++ " UTC"

end Timestamp

end AgentKit
