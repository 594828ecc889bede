/-
  SeededRows.Aggregator.Count

  The number of rows. Counts that leave the unsigned 64-bit range crash.
-/
import SeededRows.Aggregator.Basic

namespace SeededRows

namespace Hook

variable {σ : Type}

/-- The sum of two counts, if it is one. -/
def addCounts (a b : Nat) : Hook σ Nat :=
  if a + b < UInt64.size then pure (a + b) else Hook.crash ⟨some "attempt to add with overflow"⟩

end Hook

namespace Aggregator

/-- The fault of an aggregator that reads a field which a row does not have. -/
def lacksField (aggregator field : String) (row : Row) : Fault :=
  .aggregator aggregator s!"row {row.id.toNat} has no field '{field}'"

/-- The value of a field that an aggregator reads. -/
def fieldOf {σ : Type} (aggregator field : String) (row : Row) : Hook σ Value :=
  match row.value? field with
  | some v => pure v
  | none => Hook.fail (lacksField aggregator field row)

/-- The values of the fields that an aggregator reads, in order; the first missing one stops. -/
def fieldsOf {σ : Type} (aggregator : String) (fields : List String) (row : Row) :
    Hook σ (List Value) :=
  fields.mapM fun field => fieldOf aggregator field row

/-- Counts the rows it sees. -/
def count (σ : Type) : Aggregator σ where
  name := "row_counter"
  fieldsNeeded := []
  output := .count
  start := pure ()
  map _ := pure (1 : Nat)
  reduce larger smaller := Hook.addCounts larger smaller
  done := pure ()
  copy := id

end Aggregator

end SeededRows
