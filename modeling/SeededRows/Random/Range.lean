/-
  SeededRows.Random.Range

  Uniform integers below a bound, by multiplication: a word times the bound, divided by the
  number of words. When the remainder shows that the quotient may be too small, a
  second word decides. Every result is below the bound.
-/
import SeededRows.Random.Source

namespace SeededRows.Random

/-- The offset below `bound` that one word, or two, select; there are `size` words. `second` is
looked at only when the first word leaves a doubt. -/
def offset (size bound first second : Nat) : Nat :=
  let product := first * bound
  let quotient := product / size
  let remainder := product % size
  if size - bound < remainder ∧ size ≤ remainder + second * bound / size then quotient + 1
  else quotient

/-- Whether the first word leaves a doubt, so that a second one is taken. -/
def doubtful (size bound first : Nat) : Bool := size - bound < first * bound % size

namespace Source

/-- Takes a natural number below a bound of at most `UInt64.size`. -/
def below64 (bound : Nat) (s : Source) : Nat × Source :=
  let (first, s) := s.wide
  if doubtful UInt64.size bound first.toNat then
    let (second, s) := s.wide
    (offset UInt64.size bound first.toNat second.toNat, s)
  else (offset UInt64.size bound first.toNat 0, s)

/-- Takes a natural number below a bound of at most `UInt32.size`. -/
def below32 (bound : Nat) (s : Source) : Nat × Source :=
  let (first, s) := s.word
  if doubtful UInt32.size bound first.toNat then
    let (second, s) := s.word
    (offset UInt32.size bound first.toNat second.toNat, s)
  else (offset UInt32.size bound first.toNat 0, s)

/-- Takes a signed integer from `low` to `high`. Over the whole range of 64 bits it is the bits
of one word; otherwise an offset is added to the lower end. -/
def between (low high : Int64) (s : Source) : Int64 × Source :=
  let count := high.toInt - low.toInt + 1
  if count = UInt64.size then
    let (w, s) := s.wide
    (w.toInt64, s)
  else
    let (k, s) := s.below64 count.toNat
    (Int64.ofInt (low.toInt + k), s)

end Source

end SeededRows.Random
