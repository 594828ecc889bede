/-
  SeededRows.Phase

  The phases of a run. They follow one another in this order; a failure skips to the last.
-/
namespace SeededRows

/-- Where a run stands. -/
inductive Phase
  /-- Constructed; nothing has been started. -/
  | filling
  /-- Batches are being generated. -/
  | running
  /-- Every batch is back; the workers are finishing. -/
  | draining
  /-- Finished or aborted, for good. -/
  | terminated
deriving DecidableEq, Repr

/-- The name of a phase in messages. -/
def Phase.label : Phase → String
  | .filling => "filling"
  | .running => "running"
  | .draining => "draining"
  | .terminated => "terminated"

/-- The place of a phase in the order of a run. -/
def Phase.rank : Phase → Nat
  | .filling => 0
  | .running => 1
  | .draining => 2
  | .terminated => 3

end SeededRows
