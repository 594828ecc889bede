/-
  SeededRows.Decimal.Reading

  Doubles from decimal digits. `exact` is the nearest double. `scaled?` is the reading of
  JSON documents: the first digits, as long as they fit into 64 bits, become a double that
  is then multiplied or divided by a power of ten, each step rounding. `ofText?` reads the
  written form of a double.
-/
import SeededRows.Decimal.Layout

namespace SeededRows.Decimal

/-- The double nearest to `digits * 10 ^ power`, with a sign. Powers beyond every double are
settled without computing them. -/
def exact (negative : Bool) (digits : Nat) (power : Int) : Float :=
  let size := (digitChars digits).length + power
  let magnitude : Float :=
    if digits = 0 ∨ size < -400 then 0.0
    else if 400 < size then 1.0 / 0.0
    else if 0 ≤ power then Float.ofScientific digits false power.toNat
    else Float.ofScientific digits true power.natAbs
  if negative then -magnitude else magnitude

/-- A power of ten up to `10 ^ 308` as a double. -/
def tenTo (n : Nat) : Float := Float.ofScientific 1 false n

/-- Scales a double by `10 ^ power` in steps of at most `10 ^ 308`; `none` when the value is
too large for a double. The fuel bounds the steps, each of which brings the power 308 closer
to zero. -/
def scale? : Nat → Float → Int → Option Float
  | 0, _, _ => none
  | fuel + 1, x, power =>
    if power.natAbs ≤ 308 then
      if 0 ≤ power then
        let y := x * tenTo power.natAbs
        if y.isInf then none else some y
      else some (x / tenTo power.natAbs)
    else if x == 0.0 then some x
    else if 0 ≤ power then none
    else scale? fuel (x / tenTo 308) (power + 308)

/-- The reading of a JSON number with a fraction or an exponent: a 64-bit significand as a
double, scaled by a power of ten. -/
def scaled? (negative : Bool) (significand : Nat) (power : Int) : Option Float :=
  let x := significand.toUInt64.toFloat
  -- Past `10 ^ -700` every significand has become zero, so further scaling changes nothing.
  (scale? 8 x (max power (-1500))).map fun y => if negative then -y else y

/-- The value of a run of decimal digits. -/
def digitsValue (ds : List Char) : Nat :=
  ds.foldl (fun n c => 10 * n + (c.toNat - '0'.toNat)) 0

/-- Splits an optional sign off; `true` stands for a minus. -/
def splitSign : List Char → Bool × List Char
  | '-' :: cs => (true, cs)
  | '+' :: cs => (false, cs)
  | cs => (false, cs)

/-- An exponent part that ends the text: nothing, or a marker, an optional sign and digits. -/
def exponentPart? : List Char → Option Int
  | [] => some 0
  | c :: cs =>
    if c = 'e' ∨ c = 'E' then
      let (negative, ds) := splitSign cs
      if ds ≠ [] ∧ ds.all Char.isDigit then
        some (if negative then -(digitsValue ds : Int) else digitsValue ds)
      else none
    else none

/-- The double that a text names: digits with at most one point and an optional exponent, or
the name of an infinity or a NaN in any case, each with an optional sign. -/
def ofText? (text : String) : Option Float :=
  let (negative, cs) := splitSign text.toList
  let name := String.ofList (cs.map Char.toLower)
  if name = "inf" ∨ name = "infinity" then some (if negative then -(1.0 / 0.0) else 1.0 / 0.0)
  else if name = "nan" then some (0.0 / 0.0)
  else
    let whole := cs.takeWhile Char.isDigit
    let (fraction, rest) := match cs.dropWhile Char.isDigit with
      | '.' :: tail => (tail.takeWhile Char.isDigit, tail.dropWhile Char.isDigit)
      | tail => ([], tail)
    if whole.isEmpty ∧ fraction.isEmpty then none
    else (exponentPart? rest).map fun power =>
      exact negative (digitsValue (whole ++ fraction)) (power - fraction.length)

end SeededRows.Decimal
