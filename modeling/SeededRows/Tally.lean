/-
  SeededRows.Tally

  The accumulators of the batches of a run, collected for each aggregator in the order in
  which they come in.
-/
import SeededRows.Failure

namespace SeededRows

/-- For each aggregator the accumulators so far, the latest first. -/
abbrev Tally := List (List Accumulator)

namespace Tally

/-- No batches yet. -/
def empty (aggregators : Nat) : Tally := List.replicate aggregators []

/-- Adds the accumulators of a batch, which must be one per aggregator. -/
def record (t : Tally) (results : List Accumulator) : Except Violation Tally :=
  if results.length = t.length then .ok (List.zipWith (· :: ·) results t)
  else .error (.resultCount t.length results.length)

end Tally

end SeededRows
