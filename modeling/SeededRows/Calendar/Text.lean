/-
  SeededRows.Calendar.Text

  Dates as text. A year from 0 to 9999 is written with four digits, any other with its sign
  and at least four digits; month and day have two. Reading is more generous: white space
  before each number, one or two digits for month and day, and a sign with any number of
  digits for the year.
-/
import SeededRows.Calendar.Date
import SeededRows.Decimal.Reading
import SeededRows.Text.Blank
import SeededRows.Word

namespace SeededRows.Calendar.Date

open SeededRows.Decimal (padded digitsValue)

/-- The text of a year. -/
def yearText (year : Int) : String :=
  if 0 ≤ year ∧ year ≤ 9999 then padded 4 year.toNat
  else (if year < 0 then "-" else "+") ++ padded 4 year.natAbs

/-- The text of a date. -/
def text (d : Date) : String :=
  yearText d.year ++ "-" ++ padded 2 d.month ++ "-" ++ padded 2 d.day

/-- Why a text is no date. -/
inductive Problem
  | tooShort
  | badCharacter
  | outOfRange
  | trailing
deriving DecidableEq, Repr

/-- The wording of a problem. -/
def Problem.message : Problem → String
  | .tooShort => "premature end of input"
  | .badCharacter => "input contains invalid characters"
  | .outOfRange => "input is out of range"
  | .trailing => "trailing input"

/-- Reads at least one and at most `most` digits whose value fits a signed word. Without a
limit `most` is `none`. -/
def readDigits (most : Option Nat) (cs : List Char) : Except Problem (Nat × List Char) :=
  match cs with
  | [] => .error .tooShort
  | c :: _ =>
    if c.isDigit then
      let run := cs.takeWhile Char.isDigit
      let ds := match most with
        | some limit => run.take limit
        | none => run
      let value := digitsValue ds
      if (Word.signed? value).isSome then .ok (value, cs.drop ds.length) else .error .outOfRange
    else .error .badCharacter

/-- Skips white space. -/
def skipBlank (cs : List Char) : List Char := cs.dropWhile Text.isBlank

/-- Reads a year: up to four digits, or a sign and any number of them. -/
def readYear (cs : List Char) : Except Problem (Int × List Char) := do
  let (value, rest) ← match skipBlank cs with
    | '-' :: ds => (readDigits none ds).map fun (n, rest) => (-(n : Int), rest)
    | '+' :: ds => (readDigits none ds).map fun (n, rest) => ((n : Int), rest)
    | ds => (readDigits (some 4) ds).map fun (n, rest) => ((n : Int), rest)
  if Int32.minValue.toInt ≤ value ∧ value ≤ Int32.maxValue.toInt then .ok (value, rest)
  else .error .outOfRange

/-- Reads a number of one or two digits from 1 to `high`. -/
def readPart (high : Nat) (cs : List Char) : Except Problem (Nat × List Char) := do
  let (value, rest) ← readDigits (some 2) (skipBlank cs)
  if 1 ≤ value ∧ value ≤ high then .ok (value, rest) else .error .outOfRange

/-- Reads the mark between two parts. -/
def readMark : List Char → Except Problem (List Char)
  | [] => .error .tooShort
  | c :: rest => if c = '-' then .ok rest else .error .badCharacter

/-- Reads a date from the characters of a text. -/
def read (cs : List Char) : Except Problem Date := do
  let (year, cs) ← readYear cs
  let cs ← readMark cs
  let (month, cs) ← readPart 12 cs
  let cs ← readMark cs
  let (day, cs) ← readPart 31 cs
  if cs ≠ [] then .error .trailing
  else match ofParts? year month day with
    | some d => .ok d
    | none => .error .outOfRange

/-- Reads a date from a text. -/
def ofText (text : String) : Except Problem Date := read text.toList

end SeededRows.Calendar.Date
