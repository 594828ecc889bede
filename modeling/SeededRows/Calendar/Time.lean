/-
  SeededRows.Calendar.Time

  Times of day to the nanosecond, with a leap second at the end of any minute, and the
  moments made of a date and a time.
-/
import SeededRows.Calendar.Text

namespace SeededRows.Calendar

open SeededRows.Decimal (padded)

/-- A time of day. Nanoseconds from a billion on belong to a leap second after second 59. -/
structure TimeOfDay where
  hour : Nat
  minute : Nat
  second : Nat
  nanos : Nat
  hour_lt : hour < 24
  minute_lt : minute < 60
  second_lt : second < 60
  nanos_lt : nanos < 2000000000
  leap_second : 1000000000 ≤ nanos → second = 59
deriving DecidableEq, Repr

namespace TimeOfDay

/-- The time with the given parts, if there is one. -/
def ofParts? (hour minute second nanos : Nat) : Option TimeOfDay :=
  if h : hour < 24 ∧ minute < 60 ∧ second < 60 ∧ nanos < 2000000000 ∧
      (1000000000 ≤ nanos → second = 59) then
    some ⟨hour, minute, second, nanos, h.1, h.2.1, h.2.2.1, h.2.2.2.1, h.2.2.2.2⟩
  else none

/-- The text to the second; a leap second is second 60. -/
def text (t : TimeOfDay) : String :=
  padded 2 t.hour ++ ":" ++ padded 2 t.minute ++ ":" ++ padded 2 (t.second + t.nanos / 1000000000)

/-- The fraction of the second in the fewest of 0, 3, 6 or 9 digits that are exact. -/
def fractionText (t : TimeOfDay) : String :=
  let nanos := t.nanos % 1000000000
  if nanos = 0 then ""
  else if nanos % 1000000 = 0 then "." ++ padded 3 (nanos / 1000000)
  else if nanos % 1000 = 0 then "." ++ padded 6 (nanos / 1000)
  else "." ++ padded 9 nanos

/-- The text with the fraction of the second. -/
def preciseText (t : TimeOfDay) : String := t.text ++ t.fractionText

end TimeOfDay

/-- A date and a time of day. -/
structure Moment where
  date : Date
  time : TimeOfDay
deriving DecidableEq, Repr

namespace Moment

/-- The text to the second. -/
def text (m : Moment) : String := m.date.text ++ "T" ++ m.time.text

/-- The text with the fraction of the second. -/
def preciseText (m : Moment) : String := m.date.text ++ "T" ++ m.time.preciseText

end Moment

end SeededRows.Calendar
