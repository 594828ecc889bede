/-
  SeededRows.Calendar.Date

  Dates of the proleptic Gregorian calendar, from year -262143 to 262142, and their day
  numbers. `dayNumber` counts days from the first of January of year 0; `ofDayNumber?`
  finds the date again, by the cycle of 400 years.
-/
namespace SeededRows.Calendar

/-- The first year of the calendar. -/
def minYear : Int := -262143

/-- The last year of the calendar. -/
def maxYear : Int := 262142

/-- Every fourth year is a leap year, of the centuries only every fourth. -/
def isLeap (year : Int) : Bool :=
  year % 4 = 0 ∧ (year % 100 ≠ 0 ∨ year % 400 = 0)

/-- The lengths of the twelve months. -/
def monthLengths (leap : Bool) : List Nat :=
  [31, if leap then 29 else 28, 31, 30, 31, 30, 31, 31, 30, 31, 30, 31]

/-- The length of a month, numbered from 1; 0 for any other number. -/
def daysInMonth (leap : Bool) (month : Nat) : Nat :=
  if month = 0 then 0 else (monthLengths leap).getD (month - 1) 0

/-- A date of the calendar. -/
structure Date where
  year : Int
  month : Nat
  day : Nat
  year_ge : minYear ≤ year
  year_le : year ≤ maxYear
  day_pos : 1 ≤ day
  day_le : day ≤ daysInMonth (isLeap year) month
deriving DecidableEq, Repr

namespace Date

/-- The date with the given parts, if the calendar has it. -/
def ofParts? (year : Int) (month day : Nat) : Option Date :=
  if h : minYear ≤ year ∧ year ≤ maxYear ∧ 1 ≤ day ∧ day ≤ daysInMonth (isLeap year) month then
    some ⟨year, month, day, h.1, h.2.1, h.2.2.1, h.2.2.2⟩
  else none

/-- The days from the first of January of year 0 to that of another year. -/
def daysBeforeYear (year : Int) : Int :=
  365 * year + (year + 3) / 4 - (year + 99) / 100 + (year + 399) / 400

/-- The days of a year before a month. -/
def daysBeforeMonth (leap : Bool) (month : Nat) : Nat :=
  ((monthLengths leap).take (month - 1)).foldr (· + ·) 0

/-- The days from the first of January of year 0 to the date. -/
def dayNumber (d : Date) : Int :=
  daysBeforeYear d.year + daysBeforeMonth (isLeap d.year) d.month + (d.day - 1)

/-- Finds the month and the day of a zero-based day of the year, walking the months from the
given one on. -/
def locate (month : Nat) : List Nat → Nat → Nat × Nat
  | [], n => (month, n + 1)
  | length :: rest, n => if n < length then (month, n + 1) else locate (month + 1) rest (n - length)

/-- The year that a day number falls into, and the days before it within that year. In a cycle
of 400 years the quotient by 366 is the year or the one before. -/
def yearOfDay (n : Int) : Int × Nat :=
  let cycle := n / 146097
  let within := n % 146097
  let guess := within / 366
  let year := if daysBeforeYear (guess + 1) ≤ within then guess + 1 else guess
  (400 * cycle + year, (within - daysBeforeYear year).toNat)

/-- The date with a day number, if it lies in the calendar. -/
def ofDayNumber? (n : Int) : Option Date :=
  let (year, dayOfYear) := yearOfDay n
  let (month, day) := locate 1 (monthLengths (isLeap year)) dayOfYear
  ofParts? year month day

/-- The date a number of days later, if it lies in the calendar. -/
def addDays? (d : Date) (days : Nat) : Option Date := ofDayNumber? (d.dayNumber + days)

/-- Earlier dates are smaller. -/
def le (a b : Date) : Bool :=
  a.year < b.year ∨ (a.year = b.year ∧ (a.month < b.month ∨ (a.month = b.month ∧ a.day ≤ b.day)))

end Date

end SeededRows.Calendar
