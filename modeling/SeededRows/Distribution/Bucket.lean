/-
  SeededRows.Distribution.Bucket

  A label derived from an integer field drawn earlier. `labels[i]` stands for the integers
  below `thresholds[i]` that no earlier label took; the last label takes the rest.
-/
import SeededRows.Distribution.Choice

namespace SeededRows

/-- Labels between strictly increasing thresholds on a source field. -/
structure Bucket where
  source : String
  thresholds : Array Int64
  labels : Array String

namespace Bucket

/-- Whether each element is below the next. -/
def increasing : List Int64 → Bool
  | a :: b :: rest => a.toInt < b.toInt && increasing (b :: rest)
  | _ => true

/-- The bucket of thresholds with one more label. -/
def ofThresholds (source : String) (thresholds : List Int64) (labels : List String) :
    Except Fault Bucket :=
  if labels.length ≠ thresholds.length + 1 then
    refuse (.bucketLabels source labels.length thresholds.length)
  else if increasing thresholds then .ok ⟨source, thresholds.toArray, labels.toArray⟩
  else refuse (.bucketOrder source)

/-- The place of the label of an integer: how many thresholds it has reached. -/
def place (b : Bucket) (v : Int64) : Nat :=
  partitionPoint (fun t => t.toInt ≤ v.toInt) b.thresholds 0 b.thresholds.size

/-- The label of an integer. -/
def label (b : Bucket) (v : Int64) : String := b.labels.getD (b.place v) ""

/-- The fault of a row without an integer in the source field. -/
def noInteger (source : String) : Fault :=
  .distribution source "bucket source must be an integer generated earlier in the row"

/-- The label of the source field of a row; nothing is taken from the source of words. -/
def draw (b : Bucket) : Distribution := fun row =>
  match (row.value? b.source).bind (·.asInt?) with
  | some v => return .text (b.label v)
  | none => Draw.fail (noInteger b.source)

end Bucket

end SeededRows
