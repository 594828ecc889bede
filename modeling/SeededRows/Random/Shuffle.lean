/-
  SeededRows.Random.Shuffle

  Shuffling an array: position by position, each element is swapped with one at or before it.
  The places for several positions come out of one random number below the product of their
  counts, as digits of a mixed radix.
-/
import SeededRows.Random.Range

namespace SeededRows.Random

/-- The state of the sequence of places: the count reached, the digits not yet taken, and how
many positions they still serve. -/
structure Places where
  count : Nat
  chunk : Nat
  left : Nat

namespace Places

/-- The first place is drawn from nothing. -/
def start : Places := ⟨0, 0, 1⟩

/-- The longest product `m * (m + 1) * …` that fits a word of 32 bits, and the number of
its factors. The fuel bounds the number of factors. -/
def bound : Nat → Nat → Nat → Nat → Nat × Nat
  | 0, _, product, factors => (product, factors)
  | fuel + 1, m, product, factors =>
    if product * m < UInt32.size then bound fuel (m + 1) (product * m) (factors + 1)
    else (product, factors)

/-- The place for the next position, a number up to the count of positions before it. -/
def next (p : Places) (s : Source) : Nat × Places × Source :=
  let m := p.count + 1
  let (chunk, left, s) :=
    if p.left = 0 then
      let (product, factors) := bound 32 (m + 1) m 1
      let (chunk, s) := s.below32 product
      (chunk, factors - 1, s)
    else (p.chunk, p.left - 1, s)
  if left = 0 then (chunk, ⟨m, chunk, left⟩, s)
  else (chunk % m, ⟨m, chunk / m, left⟩, s)

end Places

/-- Shuffles the positions from `i` on, `todo` of them. -/
def shuffleFrom {α : Type} : Nat → Nat → Places → Array α → Source → Array α × Source
  | 0, _, _, xs, s => (xs, s)
  | todo + 1, i, places, xs, s =>
    let (j, places, s) := places.next s
    shuffleFrom todo (i + 1) places (xs.swapIfInBounds i j) s

/-- Shuffles an array. -/
def shuffle {α : Type} (xs : Array α) (s : Source) : Array α × Source :=
  shuffleFrom xs.size 0 .start xs s

end SeededRows.Random
