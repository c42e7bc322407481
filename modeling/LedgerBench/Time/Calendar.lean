/-!
# The Gregorian calendar

Dates of the Gregorian calendar, extended to all years, and their count of days from the first of
January 1970.
-/

namespace LedgerBench

/-- Whether a year has a 29th of February. -/
def isLeapYear (year : Int) : Bool := year % 4 = 0 && (year % 100 ≠ 0 || year % 400 = 0)

/-- The number of days in a month; months are counted from one. -/
def daysInMonth (year : Int) : Nat → Nat
  | 2 => if isLeapYear year then 29 else 28
  | 4 | 6 | 9 | 11 => 30
  | _ => 31

/-- The number of days of a year before the first of a month. -/
def daysBeforeMonth (year : Int) : Nat → Nat
  | 0 | 1 => 0
  | month + 1 => daysBeforeMonth year month + daysInMonth year month

/-- The number of days from the first of January 1970 to the first of January of a year. -/
def daysBeforeYear (year : Int) : Int :=
  let elapsed := year - 1
  365 * elapsed + elapsed / 4 - elapsed / 100 + elapsed / 400 - 719162

/-- A date; months and days are counted from one. -/
structure Date where
  /-- The year; zero is the year before the year one. -/
  year : Int
  /-- The month of the year. -/
  month : Nat
  /-- The day of the month. -/
  day : Nat
deriving Repr, DecidableEq

namespace Date

/-- Whether the calendar has such a date. -/
def isValid (d : Date) : Bool :=
  1 ≤ d.month && d.month ≤ 12 && 1 ≤ d.day && d.day ≤ daysInMonth d.year d.month

/-- The number of days from the first of January 1970. -/
def dayNumber (d : Date) : Int :=
  daysBeforeYear d.year + (daysBeforeMonth d.year d.month : Nat) + d.day - 1

end Date

end LedgerBench
