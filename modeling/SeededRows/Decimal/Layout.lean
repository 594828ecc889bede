/-
  SeededRows.Decimal.Layout

  How doubles are written: in plain positional form (messages, table cells, histogram
  keys), in the notation of JSON documents, and rounded to one place (percentages).
-/
import SeededRows.Decimal.Shortest

namespace SeededRows.Decimal

/-- The decimal digits of a natural number. -/
def digitChars (n : Nat) : List Char := Nat.toDigits 10 n

/-- A natural number in decimal, padded on the left with zeros to a width. -/
def padded (width n : Nat) : String :=
  let ds := digitChars n
  String.ofList (List.replicate (width - ds.length) '0' ++ ds)

namespace Digits

/-- Positional notation: no exponent, and a point only before a fraction. -/
def positional (d : Digits) : String :=
  let ds := digitChars d.digits
  if 0 ≤ d.exponent then String.ofList (ds ++ List.replicate d.exponent.toNat '0')
  else
    let places := (-d.exponent).toNat
    if places < ds.length then
      String.ofList (ds.take (ds.length - places) ++ '.' :: ds.drop (ds.length - places))
    else String.ofList ('0' :: '.' :: (List.replicate (places - ds.length) '0' ++ ds))

/-- The power of ten of the leading digit. -/
def leadingPower (d : Digits) : Int := (digitChars d.digits).length + d.exponent - 1

/-- Scientific notation with one digit before the point and a signed exponent. -/
def scientific (d : Digits) : String :=
  let power := d.leadingPower
  let mantissa := match digitChars d.digits with
    | [] => []
    | [c] => [c]
    | c :: rest => c :: '.' :: rest
  let sign := if power < 0 then "e-" else "e+"
  String.ofList mantissa ++ sign ++ toString power.natAbs

end Digits

/-- Whether the sign bit of a double is set, for zeros and NaNs too. -/
def isNegative (x : Float) : Bool := x.toBits >>> 63 = 1

/-- The text of a double in messages and cells: the shortest digits in positional notation,
the upper one of two equally near decimals, no point for integral values. -/
def plain (x : Float) : String :=
  if x.isNaN then "NaN"
  else
    let sign := if isNegative x then "-" else ""
    if x.isInf then sign ++ "inf"
    else sign ++ (shortest (.ofFloat x) .upward).positional

/-- The text of a finite double in JSON documents: the shortest digits, positional with at
least one place from `1e-5` up to `1e16`, scientific outside; of two equally near decimals
the even one. `none` for infinities and NaNs, which JSON cannot write. -/
def json? (x : Float) : Option String :=
  if x.isNaN || x.isInf then none
  else
    let sign := if isNegative x then "-" else ""
    let d := shortest (.ofFloat x) .toEven
    if d.digits = 0 then some (sign ++ "0.0")
    else if -5 ≤ d.leadingPower ∧ d.leadingPower < 16 then
      some (sign ++ d.positional ++ if 0 ≤ d.exponent then ".0" else "")
    else some (sign ++ d.scientific)

/-- The quotient rounded to the nearest natural, a tie to the even one. -/
def roundEven (num den : Nat) : Nat :=
  let quotient := num / den
  let twice := 2 * (num % den)
  if twice < den then quotient
  else if den < twice then quotient + 1
  else quotient + quotient % 2

/-- A finite double that is not negative, rounded to one decimal place: the exact value of the
double decides, a tie goes to the even digit. -/
def onePlace (x : Float) : String :=
  let m := Magnitude.ofFloat x
  let tenths := roundEven ((m.significand * 10) <<< m.exponent.toNat) (1 <<< (-m.exponent).toNat)
  toString (tenths / 10) ++ "." ++ toString (tenths % 10)

end SeededRows.Decimal
