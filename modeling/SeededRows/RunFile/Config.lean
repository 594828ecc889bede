/-
  SeededRows.RunFile.Config

  A run file as a document: the settings of the run, its fields and its aggregators, and the
  values of the command line that win over it.
-/
import SeededRows.RunFile.Aggregators
import SeededRows.RunFile.Fields
import SeededRows.Settings

namespace SeededRows

/-- What a run file describes. -/
structure RunConfig where
  generation : Settings
  /-- The fields in the order of drawing. -/
  fields : List FieldSpec
  /-- The aggregators in the order of the results. -/
  aggregators : List AggregatorSpec

/-- Values given on the command line. -/
structure Overrides where
  seed : Option Int64
  unseeded : Bool
  workers : Option UInt64
  rows : Option UInt64
  batchSize : Option UInt64
  verbose : Bool

namespace RunConfig

/-- Applies what the command line gives. No seed wins over a seed. -/
def apply (c : RunConfig) (o : Overrides) : RunConfig :=
  let s := c.generation
  { c with
    generation := { s with
      randomSeed := if o.unseeded then none else (o.seed.map some).getD s.randomSeed
      numProcesses := o.workers.getD s.numProcesses
      numRows := o.rows.getD s.numRows
      batchSize := o.batchSize.getD s.batchSize
      verbose := s.verbose || o.verbose } }

/-- The order of the fields. -/
def order (c : RunConfig) : Except Stop FieldOrder := FieldOrder.ofSpecs c.fields

/-- The copies of aggregators from which all copies of a run on a disk are made. -/
def configured (c : RunConfig) (disk : Disk) : List (Copy CsvFiles) :=
  AggregatorSpec.configuredAll disk c.aggregators

end RunConfig

namespace RunFile

/-- Settings as a document. -/
def encodeSettings (s : Settings) : Json :=
  .record
    [("random_seed", (s.randomSeed.map fun seed => Json.int seed.toInt).getD .null),
     ("num_processes", .int s.numProcesses.toNat),
     ("num_rows", .int s.numRows.toNat),
     ("batch_size", .int s.batchSize.toNat),
     ("stripe_width", .int s.stripeWidth.toNat),
     ("verbose", .bool s.verbose)]

/-- Settings. What is not given takes its default, and unknown keys are passed over. A list may
be too long in TOML. -/
def settings? (form : Notation) (v : Json) : Option Settings := do
  let d := Settings.default
  let parts ← Parts.of? v
  let randomSeed ← parts.default? 0 "random_seed" d.randomSeed (nullable? int?)
  let numProcesses ← parts.default? 1 "num_processes" d.numProcesses uint?
  let numRows ← parts.default? 2 "num_rows" d.numRows uint?
  let batchSize ← parts.default? 3 "batch_size" d.batchSize uint?
  let stripeWidth ← parts.default? 4 "stripe_width" d.stripeWidth uint?
  let verbose ← parts.default? 5 "verbose" d.verbose bool?
  if form = .toml ∨ parts.fits 6 then
    return { randomSeed, numProcesses, numRows, batchSize, stripeWidth, verbose }
  else none

/-- A run file as a document. -/
def encodeConfig (c : RunConfig) : Json :=
  .record
    [("generation", encodeSettings c.generation),
     ("fields", .list (c.fields.map encodeField)),
     ("aggregators", .list (c.aggregators.map encodeAggregator))]

/-- A run file. Unknown keys are refused. -/
def config? (form : Notation) (v : Json) : Option RunConfig := do
  let parts ← Parts.of? v
  let generation ← parts.default? 0 "generation" Settings.default (settings? form)
  let fields ← parts.required? 1 "fields" (list? (field? form))
  let aggregators ← parts.required? 2 "aggregators" (list? aggregator?)
  if parts.fits 3 && parts.knows ["generation", "fields", "aggregators"] then
    return ⟨generation, fields, aggregators⟩
  else none

end RunFile

end SeededRows
