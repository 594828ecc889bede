/-
  SeededRows.Decimal.Shortest

  The fewest decimal digits that still name one double. A finite double is
  `significand * 2 ^ exponent`; the reals that round to it form an interval, and the
  selected decimal is the one with the fewest digits inside that interval, the nearer
  of two, a tie being settled by a rule that the caller names. Everything is exact
  arithmetic on naturals.
-/
namespace SeededRows.Decimal

/-- The magnitude of a finite double: `significand * 2 ^ exponent`. -/
structure Magnitude where
  significand : Nat
  exponent : Int
  /-- Whether the next smaller double is only half as far away as the next larger one. -/
  narrowBelow : Bool
deriving Repr, DecidableEq

/-- `digits * 10 ^ exponent`. -/
structure Digits where
  digits : Nat
  exponent : Int
deriving Repr, DecidableEq

/-- Which of two equally near decimals is taken. -/
inductive Tie
  | toEven
  | upward
deriving Repr, DecidableEq

namespace Magnitude

/-- The leading bit of a significand, which a double does not store. -/
def leadingBit : Nat := 1 <<< 52

/-- The magnitude of a double that is neither infinite nor a NaN; its sign is dropped. -/
def ofFloat (x : Float) : Magnitude :=
  let bits := x.toBits.toNat
  let biased : Nat := bits / leadingBit % 2048
  let fraction : Nat := bits % leadingBit
  if biased = 0 then ⟨fraction, -1074, false⟩
  else ⟨leadingBit + fraction, (biased : Int) - 1075, fraction = 0 ∧ 1 < biased⟩

/-- `x * 2 ^ e` and `n * 10 ^ f` over a common denominator, as two numerators. -/
def scaled (x : Nat) (e : Int) (n : Nat) (f : Int) : Nat × Nat :=
  ((x * Nat.pow 10 (-f).toNat) <<< e.toNat, (n * Nat.pow 10 f.toNat) <<< (-e).toNat)

/-- Whether the decimal `n * 10 ^ f` rounds to the magnitude: it lies between the halfway
points to the two neighbours, which count when the significand is even. -/
def admits (m : Magnitude) (n : Nat) (f : Int) : Bool :=
  let unit := m.exponent - 2
  let low := scaled (4 * m.significand - if m.narrowBelow then 1 else 2) unit n f
  let high := scaled (4 * m.significand + 2) unit n f
  if m.significand % 2 = 0 then low.1 ≤ low.2 ∧ high.2 ≤ high.1
  else low.1 < low.2 ∧ high.2 < high.1

/-- The largest `n` with `n * 10 ^ f` at most the magnitude. -/
def floorAt (m : Magnitude) (f : Int) : Nat :=
  let pair := scaled m.significand m.exponent 1 f
  pair.1 / pair.2

/-- The least power of ten above the magnitude, as an exponent. The binary logarithm places
it within three candidates. -/
def ceilingPower (m : Magnitude) : Int :=
  let estimate := ((Nat.log2 m.significand : Int) + m.exponent) * 1233 / 4096
  let above (k : Int) : Bool :=
    let pair := scaled m.significand m.exponent 1 k
    pair.1 < pair.2
  if above estimate then estimate
  else if above (estimate + 1) then estimate + 1
  else estimate + 2

/-- The decimal on the grid `10 ^ f` that names the magnitude, if there is one: of the two
grid points around the magnitude the one it admits, or the nearer if it admits both. -/
def onGrid? (m : Magnitude) (tie : Tie) (f : Int) : Option Nat :=
  let below := m.floorAt f
  let above := below + 1
  match m.admits below f, m.admits above f with
  | false, false => none
  | true, false => some below
  | false, true => some above
  | true, true =>
    let pair := scaled (2 * m.significand) m.exponent (below + above) f
    if pair.1 < pair.2 then some below
    else if pair.2 < pair.1 then some above
    else match tie with
      | .upward => some above
      | .toEven => some (if below % 2 = 0 then below else above)

end Magnitude

/-- Moves trailing zeros of the digits into the exponent. The fuel bounds their number. -/
def Digits.strip : Nat → Digits → Digits
  | 0, d => d
  | fuel + 1, d =>
    if d.digits ≠ 0 ∧ d.digits % 10 = 0 then strip fuel ⟨d.digits / 10, d.exponent + 1⟩ else d

/-- The shortest decimal that names a magnitude. Seventeen digits name every double. -/
def shortest (m : Magnitude) (tie : Tie) : Digits :=
  if m.significand = 0 then ⟨0, 0⟩
  else
    let power := m.ceilingPower
    let attempt (count : Nat) : Option Digits :=
      (m.onGrid? tie (power - count)).map fun n => ⟨n, power - count⟩
    let found := (List.range' 1 17).findSome? attempt
    (found.getD ⟨m.floorAt (power - 17), power - 17⟩).strip 18

end SeededRows.Decimal
