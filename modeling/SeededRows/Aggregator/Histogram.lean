/-
  SeededRows.Aggregator.Histogram

  The number of rows for every text of one field.
-/
import SeededRows.Aggregator.Count

namespace SeededRows

/-- Adds counted texts to a histogram, one after the other. -/
def Histogram.addAll {σ : Type} (h : Histogram) : List (String × Nat) → Hook σ Histogram
  | [] => pure h
  | (key, n) :: rest => do
    let sum ← Hook.addCounts (h.getD key 0) n
    Histogram.addAll (h.insert key sum) rest

namespace Aggregator

/-- The name of histograms in messages. -/
def histogramName : String := "field_histogram"

/-- Counts the rows by the cell text of a field. -/
def histogram (σ : Type) (field : String) : Aggregator σ where
  name := histogramName
  fieldsNeeded := [field]
  output := .histogram
  start := pure ()
  map row := do
    let v ← fieldOf histogramName field row
    return (Std.ExtTreeMap.empty.insert v.cell 1 : Histogram)
  reduce := fun (larger smaller : Histogram) => larger.addAll smaller.toList
  done := pure ()
  copy := id

end Aggregator

end SeededRows
