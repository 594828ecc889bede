/-
  SeededRows.Aggregator.Results

  The final accumulators of a run, one per aggregator in the order of the aggregators, and the
  summary of each as a document.
-/
import SeededRows.Aggregator.Spec
import SeededRows.Json.Value

namespace SeededRows

/-- Named accumulators in the order of their aggregators. -/
abbrev Results := List (String × Accumulator)

namespace Results

/-- The names in order. -/
def names (results : Results) : List String := results.map (·.1)

/-- The accumulators in order. -/
def values (results : Results) : List Accumulator := results.map (·.2)

/-- The accumulator at a place, if it is of a kind. -/
def get? (results : Results) (k : Accumulator.Kind) (index : Nat) : Option k.Carrier :=
  results[index]?.bind fun (_, a) => a.as? k

/-- The accumulator at a place, which should be of a kind. -/
def expect (results : Results) (k : Accumulator.Kind) (index : Nat) : Except Fault k.Carrier :=
  match results[index]? with
  | none => refuse (.noResult index results.length)
  | some (name, a) =>
    match a.as? k with
    | some v => .ok v
    | none => refuse (.resultKind name k)

/-- The accumulators, if all are of a kind. -/
def allOf? (results : Results) (k : Accumulator.Kind) : Option (List k.Carrier) :=
  Accumulator.allOf? k results.values

/-- The diagnostic text: the names. -/
def diagnostic (results : Results) : String :=
  Text.record "AggregateResults" [("names", Text.bracketed (results.names.map Text.quoted))] true

end Results

/-- A histogram as a document. -/
def Histogram.json (h : Histogram) : Json := .record (h.toList.map fun (key, n) => (key, .int n))

/-- Collected rows as a document, keyed by the decimal texts of their ids. -/
def RowTable.json (table : RowTable) : Json :=
  .record (table.toList.map fun (id, values) => (toString id.toNat, .list (values.map Value.json)))

/-- A set of row ids as a document. -/
def IdSet.json (ids : IdSet) : Json := .list (ids.toList.map fun id => .int id.toNat)

/-- The summary of the result at a place, which should belong to a described aggregator. -/
def AggregatorSpec.summarize (spec : AggregatorSpec) (results : Results) (index : Nat) :
    Except Fault Json :=
  match spec with
  | .count | .csv .. => (results.expect .count index).map fun (n : Nat) => .int n
  | .histogram _ => (results.expect .histogram index).map fun (h : Histogram) => h.json
  | .collect _ => (results.expect .rows index).map fun (table : RowTable) => table.json
  | .matches .. => (results.expect .ids index).map fun (ids : IdSet) => ids.json

end SeededRows
