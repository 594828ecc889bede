/-
  SeededRows.Aggregator.Spec

  Descriptions of the stock aggregators, as run files hold them, and the aggregators that they
  describe.
-/
import SeededRows.Aggregator.Collect
import SeededRows.Aggregator.CsvRows
import SeededRows.Aggregator.Histogram
import SeededRows.Aggregator.Matches

namespace SeededRows

/-- The description of a stock aggregator. -/
inductive AggregatorSpec
  | count
  | histogram (field : String)
  | collect (fields : List String)
  /-- A table in a directory; the name of the file starts with `stem`, if one is given. -/
  | csv (dir : String) (fields : List String) (stem : Option String)
  /-- The value is a text, to which the cell texts of the field are compared. -/
  | matches (field value : String)
deriving DecidableEq, Repr

namespace AggregatorSpec

/-- The stem of tables whose description gives none. -/
def defaultStem : String := "rows"

/-- Where the table is written, for a table. -/
def target? : AggregatorSpec → Option CsvTarget
  | csv dir _ stem => some ⟨dir, stem.getD defaultStem⟩
  | _ => none

/-- The aggregator that is described, on a disk. -/
def build (disk : Disk) : AggregatorSpec → Aggregator CsvFiles
  | count => .count _
  | histogram field => .histogram _ field
  | collect fields => .collect _ fields
  | csv dir fields stem => .csvRows disk ⟨dir, stem.getD defaultStem⟩ fields
  | .matches field value => .matching _ field (.text value)

/-- What is on a disk once the aggregator has been set up. -/
def leaves (spec : AggregatorSpec) (disk : Disk) : Disk :=
  match spec.target? with
  | some target => target.leaves disk
  | none => disk

/-- The copy from which all copies of a run are made. -/
def configured (disk : Disk) (spec : AggregatorSpec) : Copy CsvFiles := .fresh (spec.build disk) .none

/-- The copies from which those of a worker are made. A worker sets its aggregators up in order, so
each one finds the folders that those before it have made. -/
def configuredAll : Disk → List AggregatorSpec → List (Copy CsvFiles)
  | _, [] => []
  | disk, spec :: rest => spec.configured disk :: configuredAll (spec.leaves disk) rest

end AggregatorSpec

end SeededRows
