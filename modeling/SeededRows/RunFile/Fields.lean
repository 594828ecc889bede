/-
  SeededRows.RunFile.Fields

  Descriptions of distributions and of fields as documents. Every part is written, the ones
  with a default included; a double that is not finite is written as null.
-/
import SeededRows.FieldOrder
import SeededRows.RunFile.Parts

namespace SeededRows.RunFile

/-! ## Writing -/

/-- A weighted label as a document. -/
def encodeOption (o : WeightedLabel) : Json :=
  .record [("label", .text o.label), ("weight", .ofFloat o.weight)]

/-- The name of the kind of a distribution. -/
def distributionKind : DistributionSpec → String
  | .bool _ => "bool"
  | .intRange .. => "int_range"
  | .floatRange .. => "float_range"
  | .choice _ => "choice"
  | .uuid => "uuid"
  | .dateRange .. => "date_range"
  | .bucket .. => "bucket"

/-- The kinds of distributions in order. -/
def distributionKinds : List String :=
  ["bool", "int_range", "float_range", "choice", "uuid", "date_range", "bucket"]

/-- The parts of a distribution. -/
def distributionParts : DistributionSpec → List (String × Json)
  | .bool p => [("probability", .ofFloat p)]
  | .intRange min max => [("min", .int min.toInt), ("max", .int max.toInt)]
  | .floatRange min max => [("min", .ofFloat min), ("max", .ofFloat max)]
  | .choice options => [("options", .list (options.map encodeOption))]
  | .uuid => []
  | .dateRange min max => [("min", .text min), ("max", .text max)]
  | .bucket source thresholds labels =>
    [("source", .text source), ("thresholds", .list (thresholds.map fun t => .int t.toInt)),
     ("labels", .texts labels)]

/-- The entries of a distribution, its kind first. -/
def distributionEntries (d : DistributionSpec) : List (String × Json) :=
  (kindKey, .text (distributionKind d)) :: distributionParts d

/-- A distribution as a document. -/
def encodeDistribution (d : DistributionSpec) : Json := .record (distributionEntries d)

/-- A field as a document: its name beside the entries of its distribution. -/
def encodeField (f : FieldSpec) : Json :=
  .record (("name", .text f.name) :: distributionEntries f.distribution)

/-! ## Reading -/

/-- A weighted label; without a weight it weighs one. -/
def option? (v : Json) : Option WeightedLabel := do
  let parts ← Parts.of? v
  let label ← parts.required? 0 "label" text?
  let weight ← parts.default? 1 "weight" 1.0 float?
  if parts.fits 2 then return ⟨label, weight⟩ else none

/-- A distribution of a kind. -/
def distributionOf? (kind : String) (parts : Parts) : Option DistributionSpec :=
  let whole (size : Nat) (d : DistributionSpec) : Option DistributionSpec :=
    if parts.fits size then some d else none
  match kind with
  | "bool" => do whole 1 (.bool (← parts.default? 0 "probability" 0.5 float?))
  | "int_range" => do
    whole 2 (.intRange (← parts.required? 0 "min" int?) (← parts.required? 1 "max" int?))
  | "float_range" => do
    whole 2 (.floatRange (← parts.required? 0 "min" float?) (← parts.required? 1 "max" float?))
  | "choice" => do whole 1 (.choice (← parts.required? 0 "options" (list? option?)))
  | "uuid" => whole 0 .uuid
  | "date_range" => do
    whole 2 (.dateRange (← parts.required? 0 "min" text?) (← parts.required? 1 "max" text?))
  | "bucket" => do
    whole 3 (.bucket (← parts.required? 0 "source" text?)
      (← parts.required? 1 "thresholds" (list? int?)) (← parts.required? 2 "labels" (list? text?)))
  | _ => none

/-- A distribution. Every part of it must be readable, the unknown ones included. -/
def distribution? (v : Json) : Option DistributionSpec :=
  if v.readable then do
    let (kind, parts) ← kindAndParts? v
    distributionOf? kind parts
  else none

/-- The kind of a field's distribution. In JSON it may be given by its place among the kinds. -/
def fieldKind? (form : Notation) : Json → Option String
  | .text kind => some kind
  | .int n => if form = .json ∧ 0 ≤ n then distributionKinds[n.toNat]? else none
  | _ => none

/-- A field. -/
def field? (form : Notation) (v : Json) : Option FieldSpec :=
  if v.readable then
    match v with
    | .record entries => do
      let name ← (Parts.named entries).required? 0 "name" text?
      let kind ← (Parts.named entries).required? 0 kindKey (fieldKind? form)
      let rest := entries.filter fun entry => entry.1 != kindKey && entry.1 != "name"
      return ⟨name, ← distributionOf? kind (.named rest)⟩
    | _ => none
  else none

end SeededRows.RunFile
