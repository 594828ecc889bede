/-
  SeededRows.Toml.Scalar

  Numbers, truth values, dates and times in TOML. Dates and times become records with one key
  of their own, so that they are no texts.
-/
import SeededRows.Calendar.Date
import SeededRows.Toml.Lexeme
import SeededRows.Word

namespace SeededRows.Toml

/-! ## Digits -/

/-- Reads on after a digit: digits, each perhaps after an underscore. -/
def moreDigits (isDigit : Char → Bool) (read : List Char) : Read (List Char)
  | [] => some (read.reverse, [])
  | '_' :: [] => none
  | '_' :: c :: rest => if isDigit c then moreDigits isDigit (c :: read) rest else none
  | c :: rest =>
    if isDigit c then moreDigits isDigit (c :: read) rest else some (read.reverse, c :: rest)

/-- Reads digits with single underscores between them. -/
def digits (isDigit : Char → Bool) : Read (List Char)
  | [] => none
  | c :: rest => if isDigit c then moreDigits isDigit [c] rest else none

/-- Reads a sign and digits without a leading zero. -/
def decimal : Read (Bool × List Char) := fun cs =>
  let (negative, cs) := Decimal.splitSign cs
  match cs with
  | '0' :: rest => some ((negative, ['0']), rest)
  | cs => (digits Char.isDigit cs).map fun (ds, rest) => ((negative, ds), rest)

/-! ## Numbers -/

/-- Reads the exponent of a number. -/
def exponent : Read Int
  | c :: cs =>
    if c = 'e' ∨ c = 'E' then do
      let (negative, cs) := Decimal.splitSign cs
      let (ds, rest) ← digits Char.isDigit cs
      let n : Int := Decimal.digitsValue ds
      return (if negative then -n else n, rest)
    else none
  | [] => none

/-- Reads the fraction of a number. -/
def fraction : Read (List Char)
  | '.' :: cs => digits Char.isDigit cs
  | _ => none

/-- Reads a number with a fraction or an exponent. It is the nearest double, which must not be
positive infinity. -/
def float : Read Json := fun cs => do
  let ((negative, whole), rest) ← decimal cs
  let (places, power, rest) ← match fraction rest with
    | some (places, rest) =>
      match exponent rest with
      | some (power, rest) => some (places, power, rest)
      | none => some (places, 0, rest)
    | none => (exponent rest).map fun (power, rest) => ([], power, rest)
  let x := Decimal.exact negative (Decimal.digitsValue (whole ++ places)) (power - places.length)
  if x.isInf ∧ ¬ negative then none else return (.float x, rest)

/-- Reads the name of an infinity or of a double that is no number. -/
def specialFloat : Read Json := fun cs =>
  let (negative, cs) := Decimal.splitSign cs
  match cs with
  | 'i' :: 'n' :: 'f' :: rest => some (.float (if negative then -(1.0 / 0.0) else 1.0 / 0.0), rest)
  | 'n' :: 'a' :: 'n' :: rest => some (.float (0.0 / 0.0), rest)
  | _ => none

/-- An integer of 64 bits. -/
def wordInt? (n : Int) : Option Json :=
  (Word.signed? n).map fun w => .int w.toInt

/-- Reads the digits of a natural number in a base up to 16. -/
def inBase (base : Nat) : Read Json := fun cs => do
  let isDigit (c : Char) : Bool := (Json.hexValue? c).any (· < base)
  let (ds, rest) ← digits isDigit cs
  let n := ds.foldl (fun n c => base * n + (Json.hexValue? c).getD 0) 0
  return (← wordInt? n, rest)

/-- Reads an integer. -/
def integer : Read Json := fun cs =>
  match cs with
  | '0' :: 'x' :: rest => inBase 16 rest
  | '0' :: 'o' :: rest => inBase 8 rest
  | '0' :: 'b' :: rest => inBase 2 rest
  | cs => do
    let ((negative, ds), rest) ← decimal cs
    let n : Int := Decimal.digitsValue ds
    return (← wordInt? (if negative then -n else n), rest)

/-! ## Dates and times -/

/-- Reads a number of exactly so many digits, from `low` to `high`. -/
def fixed (count low high : Nat) : Read Nat := fun cs =>
  let ds := cs.take count
  let n := Decimal.digitsValue ds
  if ds.length = count ∧ ds.all Char.isDigit ∧ low ≤ n ∧ n ≤ high then some (n, cs.drop count)
  else none

/-- Reads a given character. -/
def exactly (mark : Char) : Read Unit
  | c :: rest => if c = mark then some ((), rest) else none
  | [] => none

/-- Reads a date that exists. -/
def date : Read Unit := fun cs => do
  let (year, cs) ← fixed 4 0 9999 cs
  let (_, cs) ← exactly '-' cs
  let (month, cs) ← fixed 2 1 12 cs
  let (_, cs) ← exactly '-' cs
  let (day, cs) ← fixed 2 1 31 cs
  if (Calendar.Date.ofParts? year month day).isSome then return ((), cs) else none

/-- Reads a time to the second, of which there may be a sixtieth, and perhaps a fraction. -/
def time : Read Unit := fun cs => do
  let (_, cs) ← fixed 2 0 23 cs
  let (_, cs) ← exactly ':' cs
  let (_, cs) ← fixed 2 0 59 cs
  let (_, cs) ← exactly ':' cs
  let (_, cs) ← fixed 2 0 60 cs
  match cs with
  | '.' :: c :: rest =>
    if c.isDigit then return ((), rest.dropWhile Char.isDigit) else return ((), cs)
  | cs => return ((), cs)

/-- Reads the offset of a time from the standard time. -/
def offset : Read Unit
  | c :: cs =>
    if c = 'Z' ∨ c = 'z' then some ((), cs)
    else if c = '+' ∨ c = '-' then do
      let (_, cs) ← fixed 2 0 23 cs
      let (_, cs) ← exactly ':' cs
      let (_, cs) ← fixed 2 0 59 cs
      return ((), cs)
    else none
  | [] => none

/-- Reads what may follow a date: a time and its offset. -/
def timeAfterDate (cs : List Char) : List Char :=
  match cs with
  | c :: rest =>
    if c = 'T' ∨ c = 't' ∨ c = ' ' then
      match time rest with
      | some (_, rest) => ((offset rest).map (·.2)).getD rest
      | none => cs
    else cs
  | [] => []

/-- The key under which a date or time stands. -/
def momentKey : String := "$__toml_private_datetime"

/-- Reads a date, a date with a time, or a time. -/
def moment : Read Json := fun cs => do
  let rest ← match date cs with
    | some (_, rest) => some (timeAfterDate rest)
    | none => (time cs).map (·.2)
  return (.record [(momentKey, .text (String.ofList (cs.take (cs.length - rest.length))))], rest)

/-! ## Scalars -/

/-- Reads a given word. -/
def word (name : List Char) (v : Json) : Read Json := fun cs =>
  if name.isPrefixOf cs then some (v, cs.drop name.length) else none

/-- Reads a value that is no text and has no parts. -/
def scalar : Read Json := fun cs =>
  match cs with
  | [] => none
  | c :: _ =>
    if c = '+' ∨ c = '-' ∨ c.isDigit then
      moment cs <|> float cs <|> specialFloat cs <|> integer cs
    else if c = 't' then word ['t', 'r', 'u', 'e'] (.bool true) cs
    else if c = 'f' then word ['f', 'a', 'l', 's', 'e'] (.bool false) cs
    else if c = 'i' ∨ c = 'n' then specialFloat cs
    else none

end SeededRows.Toml
