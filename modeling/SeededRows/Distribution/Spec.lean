/-
  SeededRows.Distribution.Spec

  Descriptions of the stock distributions and of named fields, as run files hold them, and
  the distributions that they describe.
-/
import SeededRows.Distribution.Bucket
import SeededRows.Distribution.Ranges
import SeededRows.Distribution.Uuid

namespace SeededRows

open Calendar (Date)

/-- The description of a stock distribution. -/
inductive DistributionSpec
  | bool (probability : Float)
  | intRange (min max : Int64)
  | floatRange (min max : Float)
  | choice (options : List WeightedLabel)
  | uuid
  /-- The ends are texts of dates. -/
  | dateRange (min max : String)
  | bucket (source : String) (thresholds : List Int64) (labels : List String)

/-- A named field. -/
structure FieldSpec where
  name : String
  distribution : DistributionSpec

/-- Reads a date of a description. -/
def readDate (given : String) : Except Fault Date :=
  match Date.ofText given with
  | .ok d => .ok d
  | .error problem => refuse (.dateText given problem)

namespace DistributionSpec

/-- The distribution that is described, if its parameters allow one. -/
def build : DistributionSpec → Except Stop Distribution
  | bool p => Stop.ofFault ((Event.ofProbability p).map (·.draw))
  | intRange min max => Stop.ofFault ((IntRange.ofEnds min max).map (·.draw))
  | floatRange min max => Stop.ofFault ((FloatRange.ofEnds min max).map (·.draw))
  | choice options => (Choice.ofWeights options).map (·.draw)
  | uuid => .ok Uuid.draw
  | dateRange min max => Stop.ofFault do
    let first ← readDate min
    let last ← readDate max
    return (← DateRange.ofEnds first last).draw
  | bucket source thresholds labels =>
    Stop.ofFault ((Bucket.ofThresholds source thresholds labels).map (·.draw))

end DistributionSpec

end SeededRows
