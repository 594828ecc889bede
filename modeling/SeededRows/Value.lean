/-
  SeededRows.Value

  The values that fields hold, their views as numbers, texts and dates, and their two plain
  texts: the one shown in messages and the one written into a table cell, which differ for
  the missing value only.
-/
import SeededRows.Calendar.Time
import SeededRows.Word

namespace SeededRows

open Calendar

/-- The value of one field of a row. -/
inductive Value
  | null
  | bool (b : Bool)
  | int (n : Int64)
  /-- Row ids use the whole unsigned range. -/
  | uint (n : UInt64)
  | float (x : Float)
  | text (s : String)
  | uuid (s : String)
  | date (d : Date)
  | time (t : TimeOfDay)
  | timestamp (m : Moment)

namespace Value

/-- Equality of values: the same kind and the same content, floats compared as numbers, so that
a NaN differs from itself and the two zeros are equal. -/
def same : Value → Value → Bool
  | null, null => true
  | bool a, bool b => a == b
  | int a, int b => a == b
  | uint a, uint b => a == b
  | float a, float b => a == b
  | text a, text b => a == b
  | uuid a, uuid b => a == b
  | date a, date b => a == b
  | time a, time b => a == b
  | timestamp a, timestamp b => a == b
  | _, _ => false

/-- Whether the value is missing. -/
def isNull : Value → Bool
  | null => true
  | _ => false

/-- The text shown in messages. -/
def display : Value → String
  | null => "null"
  | bool b => if b then "true" else "false"
  | int n => toString n.toInt
  | uint n => toString n.toNat
  | float x => Decimal.plain x
  | text s => s
  | uuid s => s
  | date d => d.text
  | time t => t.text
  | timestamp m => m.text

/-- The text of a table cell; a missing value is empty. -/
def cell : Value → String
  | null => ""
  | v => v.display

/-- The value as a double, for the three kinds of numbers. -/
def asFloat? : Value → Option Float
  | int n => some n.toFloat
  | uint n => some n.toFloat
  | float x => some x
  | _ => none

/-- The value as a signed integer, for the two kinds of integers; too large ones have none. -/
def asInt? : Value → Option Int64
  | int n => some n
  | uint n => Word.signed? n.toNat
  | _ => none

/-- The value as a text, for texts and identifiers. -/
def asText? : Value → Option String
  | text s => some s
  | uuid s => some s
  | _ => none

/-- The date of a date or of a moment. -/
def asDate? : Value → Option Date
  | date d => some d
  | timestamp m => some m.date
  | _ => none

end Value

end SeededRows
