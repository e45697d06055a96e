/-
# Points in time from a clock

A clock counts nanoseconds from the beginning of the year 1970, without leap seconds.
Dates are found by counting from the first of March, so that a leap day is the last of
its year, in spans of four hundred years, which have all the same number of days.
-/

import AgentKit.Timestamp

namespace AgentKit

/-- The date that lies a number of days after the first of March of the year zero. -/
def Calendar.Date.afterMarch (days : Nat) : Calendar.Date :=
  let span := days / 146097
  let within := days % 146097
  let year := (within - within / 1460 + within / 36524 - within / 146096) / 365
  let day := within - (365 * year + year / 4 - year / 100)
  let month := (5 * day + 2) / 153
  { year := ((year + span * 400 + if month < 10 then 0 else 1 : Nat) : Int)
    month := if month < 10 then month + 3 else month - 9
    day := day - (153 * month + 2) / 5 + 1 }

/-- The number of days from the first of March of the year zero to the beginning of
the year 1970. -/
def Calendar.clockStart : Nat := 719468

/-- The point in time of a clock. -/
def Timestamp.ofClock (nanoseconds : Nat) : Timestamp :=
  let seconds := nanoseconds / 1000000000
  let second := seconds % 86400
  { date := .afterMarch (seconds / 86400 + Calendar.clockStart)
    hour := second / 3600
    minute := second / 60 % 60
    second := second % 60
    nanosecond := nanoseconds % 1000000000 }

end AgentKit
