/-
  SeededRows.RunFile.Aggregators

  Descriptions of aggregators as documents.
-/
import SeededRows.Aggregator.Spec
import SeededRows.RunFile.Parts

namespace SeededRows.RunFile

/-- The key of the start of the file names of a table. -/
def stemKey : String := "prefix"

/-- A text or null as a document. -/
def encodeNullable : Option String → Json
  | some s => .text s
  | none => .null

/-- An aggregator as a document. -/
def encodeAggregator : AggregatorSpec → Json
  | .count => .record [(kindKey, .text "count")]
  | .histogram field => .record [(kindKey, .text "histogram"), ("field", .text field)]
  | .collect fields => .record [(kindKey, .text "collect"), ("fields", .texts fields)]
  | .csv dir fields stem =>
    .record [(kindKey, .text "csv"), ("dir", .text dir), ("fields", .texts fields),
      (stemKey, encodeNullable stem)]
  | .matches field value =>
    .record [(kindKey, .text "matches"), ("field", .text field), ("value", .text value)]

/-- An aggregator of a kind. -/
def aggregatorOf? (kind : String) (parts : Parts) : Option AggregatorSpec :=
  let whole (size : Nat) (a : AggregatorSpec) : Option AggregatorSpec :=
    if parts.fits size then some a else none
  match kind with
  | "count" => whole 0 .count
  | "histogram" => do whole 1 (.histogram (← parts.required? 0 "field" text?))
  | "collect" => do whole 1 (.collect (← parts.required? 0 "fields" (list? text?)))
  | "csv" => do
    whole 3 (.csv (← parts.required? 0 "dir" text?) (← parts.required? 1 "fields" (list? text?))
      (← parts.default? 2 stemKey none (nullable? text?)))
  | "matches" => do
    whole 2 (.matches (← parts.required? 0 "field" text?) (← parts.required? 1 "value" text?))
  | _ => none

/-- An aggregator. Every part of it must be readable, the unknown ones included. -/
def aggregator? (v : Json) : Option AggregatorSpec :=
  if v.readable then do
    let (kind, parts) ← kindAndParts? v
    aggregatorOf? kind parts
  else none

end SeededRows.RunFile
