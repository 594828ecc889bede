/-
  SeededRows.Aggregator.Collect

  The values of chosen fields of every row, by row id. A row id that comes twice is a fault.
-/
import SeededRows.Aggregator.Count

namespace SeededRows

namespace Aggregator

/-- The name of collectors in messages. -/
def collectName : String := "row_collector"

/-- The fault of a row id that comes twice. -/
def collectedTwice (id : UInt64) : Fault :=
  .aggregator collectName s!"row {id.toNat} collected twice"

end Aggregator

/-- Adds collected rows to a table; the first id that the table has already stops. -/
def RowTable.addAll {σ : Type} (table : RowTable) : List (UInt64 × List Value) → Hook σ RowTable
  | [] => pure table
  | (id, values) :: rest =>
    if table.contains id then Hook.fail (Aggregator.collectedTwice id)
    else RowTable.addAll (table.insert id values) rest

namespace Aggregator

/-- Collects the values of fields, in the order of the fields. -/
def collect (σ : Type) (fields : List String) : Aggregator σ where
  name := collectName
  fieldsNeeded := fields
  output := .rows
  start := pure ()
  map row := do
    let values ← fieldsOf collectName fields row
    return (Std.ExtTreeMap.empty.insert row.id values : RowTable)
  reduce := fun (larger smaller : RowTable) => larger.addAll smaller.toList
  done := pure ()
  copy := id

end Aggregator

end SeededRows
