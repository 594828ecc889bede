/-
  SeededRows.RowIds.Stream

  The stream of row specs of a run. The ids are laid out in stripes of one width; the order of
  the stripes and the order of the offsets within every stripe are shuffled once, from one
  source, so that ids look random and never collide. Seeds count up from the seed of the run.
-/
import SeededRows.Fault
import SeededRows.Random.Shuffle
import SeededRows.RowIds.Spec

namespace SeededRows.RowIds

/-- Takes up to `n` rows off a stream; they are put before `taken` in reverse. -/
def takeOnto {ι : Type} [Std.Stream ι RowSpec] : Nat → List RowSpec → ι → List RowSpec × ι
  | 0, taken, rows => (taken, rows)
  | n + 1, taken, rows =>
    match Std.Stream.next? rows with
    | none => (taken, rows)
    | some (spec, rest) => takeOnto n (spec :: taken) rest

/-- The next `n` rows of a stream, or all there are, and the rows after them. -/
def takeRows {ι : Type} [Std.Stream ι RowSpec] (n : Nat) (rows : ι) : List RowSpec × ι :=
  let (taken, rest) := takeOnto n [] rows
  (taken.reverse, rest)

/-- How the rows of a run are identified: the seed of the run and the width of a stripe. -/
structure Plan where
  seed : Option Int64
  width : UInt64

/-- The rows of a run that are still to come: the shuffled stripes and offsets, the position in
both, the next seed, and the number of rows left. -/
structure Stream where
  stripes : Array Nat
  offsets : Array Nat
  stripePos : Nat
  offsetPos : Nat
  nextSeed : Option Int64
  remaining : Nat

namespace Stream

/-- The next row and the rows after it. -/
def next? (s : Stream) : Option (RowSpec × Stream) :=
  if s.remaining = 0 then none
  else
    match s.stripes[s.stripePos]?, s.offsets[s.offsetPos]? with
    | some stripe, some offset =>
      let wrapped := s.offsetPos + 1 = s.offsets.size
      some (⟨RowSpec.idOf stripe offset, s.nextSeed⟩,
        { s with
          offsetPos := if wrapped then 0 else s.offsetPos + 1
          stripePos := if wrapped then s.stripePos + 1 else s.stripePos
          nextSeed := s.nextSeed.map (· + 1)
          remaining := s.remaining - 1 })
    | _, _ => none

/-- A stream hands out its rows one by one. -/
instance : Std.Stream Stream RowSpec := ⟨next?⟩

/-- The number of rows to come, as an exact lower and upper bound. -/
def sizeHint (s : Stream) : Nat × Nat := (s.remaining, s.remaining)

/-- All rows to come. -/
def toList (s : Stream) : List RowSpec := (takeRows s.remaining s).1

end Stream

namespace Plan

/-- The quotient rounded up. -/
def ceilDiv (a b : Nat) : Nat := (a + b - 1) / b

/-- The number of stripes for a number of rows, which a division is asked for. The width must be from 1
to the stripe limit, and so must be the number of stripes, or zero. -/
def stripesBy {m : Type → Type} [Monad m] [MonadLiftT (Except Fault) m] (divide : Nat → Nat → m Nat)
    (plan : Plan) (rows : Nat) : m Nat := do
  let width := plan.width.toNat
  if width = 0 ∨ stripeLimit < width then refuse (.stripeWidth width)
  else
    let count ← divide rows width
    if stripeLimit < count then refuse (.stripeCount rows count) else return count

/-- The number of stripes for a number of rows. -/
def stripes (plan : Plan) (rows : Nat) : Except Fault Nat :=
  plan.stripesBy (fun a b => .ok (ceilDiv a b)) rows

/-- The source that shuffles the ids: that of the seed, or entropy. -/
def source (plan : Plan) (entropy : Random.Source) : Random.Source :=
  match plan.seed with
  | some seed => .ofSeed seed.toUInt64
  | none => entropy

/-- The stream of a number of rows. The stripes are shuffled before the offsets; exactly as many
stripes are shuffled as the rows need. -/
def stream (plan : Plan) (entropy : Random.Source) (rows : Nat) : Except Fault Stream := do
  let count ← plan.stripes rows
  let (stripes, source) := Random.shuffle (Array.range count) (plan.source entropy)
  let (offsets, _) := Random.shuffle (Array.range plan.width.toNat) source
  return {
    stripes, offsets
    stripePos := 0
    offsetPos := 0
    nextSeed := plan.seed.map (· + 1)
    remaining := rows }

end Plan

end SeededRows.RowIds
