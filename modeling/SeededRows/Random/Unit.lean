/-
  SeededRows.Random.Unit

  Doubles from zero up to one, with 52 random bits, and what is made of them: a double of a
  range, and an event of a given probability.
-/
import SeededRows.Random.Source

namespace SeededRows.Random.Source

/-- Takes a double of the unit interval, a multiple of `2 ^ -52` below one. -/
def unit (s : Source) : Float × Source :=
  let (w, s) := s.wide
  ((w >>> 12).toFloat / 4503599627370496.0, s)

/-- Takes a double from `low` to `high`: the unit double, stretched and moved, which rounds
twice. -/
def stretch (low high : Float) (s : Source) : Float × Source :=
  let (u, s) := s.unit
  (u * (high - low) + low, s)

/-- Takes an event of the given probability. A certain event takes nothing from the source; any
other compares a word with the probability times `2 ^ 64`. -/
def chance (p : Float) (s : Source) : Bool × Source :=
  if p == 1.0 then (true, s)
  else
    let (w, s) := s.wide
    (w < (p * 18446744073709551616.0).toUInt64, s)

end SeededRows.Random.Source
