/-
  SeededRows.Distribution.Ranges

  Events, and uniform integers, doubles and dates. Each range is built from its two ends,
  which must not be reversed, and draws from the source for every value, even when only one
  value is possible.
-/
import SeededRows.Distribution.Basic

namespace SeededRows

open Calendar (Date)

/-! ## Events -/

/-- True with a fixed probability. -/
structure Event where
  probability : Float

namespace Event

/-- The event of a probability from 0 to 1. -/
def ofProbability (p : Float) : Except Fault Event :=
  if 0.0 ≤ p && p ≤ 1.0 then .ok ⟨p⟩ else refuse (.probability p)

/-- Draws whether the event happens. -/
def draw (e : Event) : Distribution := fun _ => do return .bool (← Draw.take (·.chance e.probability))

end Event

/-! ## Integers -/

/-- Uniform integers between two ends. -/
structure IntRange where
  min : Int64
  max : Int64
  le : min.toInt ≤ max.toInt

namespace IntRange

/-- The range between two ends. -/
def ofEnds (min max : Int64) : Except Fault IntRange :=
  if h : min.toInt ≤ max.toInt then .ok ⟨min, max, h⟩ else refuse (.intBounds min max)

/-- Draws an integer of the range. -/
def draw (r : IntRange) : Distribution := fun _ => do return .int (← Draw.take (·.between r.min r.max))

end IntRange

/-! ## Doubles -/

/-- Uniform doubles between two finite ends whose distance is finite. -/
structure FloatRange where
  min : Float
  max : Float

namespace FloatRange

/-- The range between two ends. -/
def ofEnds (min max : Float) : Except Fault FloatRange :=
  if !min.isFinite || !max.isFinite || max < min then refuse (.floatBounds min max)
  else if !(max - min).isFinite then refuse (.floatSpan min max)
  else .ok ⟨min, max⟩

/-- Draws a double of the range. -/
def draw (r : FloatRange) : Distribution := fun _ => do return .float (← Draw.take (·.stretch r.min r.max))

end FloatRange

/-! ## Dates -/

/-- Uniform dates between two ends, as the first date and the number of days after it. -/
structure DateRange where
  min : Date
  days : Nat

namespace DateRange

/-- The range between two dates. -/
def ofEnds (min max : Date) : Except Fault DateRange :=
  if min.le max then .ok ⟨min, (max.dayNumber - min.dayNumber).toNat⟩
  else refuse (.dateBounds min max)

/-- Draws a date of the range. A range built from two dates never leaves the calendar. -/
def draw (r : DateRange) : Distribution := fun _ => do
  let offset ← Draw.take (·.below64 (r.days + 1))
  match r.min.addDays? offset with
  | some d => return .date d
  | none => Draw.crash "date out of the calendar"

end DateRange

end SeededRows
