/-
# Dates

Dates of the Gregorian calendar, continued without end before its introduction.
The calendar here covers a wide but limited range of years; there is no date
outside it.
-/

namespace AgentKit.Calendar

/-- A day: the year, the month from 1 and the day of the month from 1. -/
structure Date where
  year : Int
  month : Nat
  day : Nat
  deriving DecidableEq, Repr

/-- The first year of the calendar. -/
def firstYear : Int := -262143

/-- The last year of the calendar. -/
def lastYear : Int := 262142

/-- Whether a year has a day more. -/
def isLeapYear (year : Int) : Bool :=
  year % 4 = 0 && (year % 100 ≠ 0 || year % 400 = 0)

/-- The number of days of a month. -/
def daysInMonth (year : Int) (month : Nat) : Nat :=
  match month with
  | 2 => if isLeapYear year then 29 else 28
  | 4 | 6 | 9 | 11 => 30
  | _ => 31

namespace Date

/-- Whether a date is a day of the calendar. -/
def isValid (date : Date) : Bool :=
  firstYear ≤ date.year && date.year ≤ lastYear && 1 ≤ date.month && date.month ≤ 12 &&
    1 ≤ date.day && date.day ≤ daysInMonth date.year date.month

/-- The date, if it is a day of the calendar. -/
def checked (date : Date) : Option Date :=
  if date.isValid then some date else none

/-- The next day. -/
def next (date : Date) : Option Date :=
  if date.day < daysInMonth date.year date.month then
    some { date with day := date.day + 1 }
  else if date.month < 12 then some ⟨date.year, date.month + 1, 1⟩
  else Date.checked ⟨date.year + 1, 1, 1⟩

/-- The day before. -/
def previous (date : Date) : Option Date :=
  if date.day > 1 then some { date with day := date.day - 1 }
  else if date.month > 1 then
    some ⟨date.year, date.month - 1, daysInMonth date.year (date.month - 1)⟩
  else Date.checked ⟨date.year - 1, 12, 31⟩

end Date

end AgentKit.Calendar
