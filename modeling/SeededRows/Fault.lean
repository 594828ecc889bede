/-
  SeededRows.Fault

  The faults of the library by cause, with one wording for each, and what can stop a hook or
  a draw: a fault, or a crash that carries a text or nothing.
-/
import SeededRows.Accumulator
import SeededRows.Names
import SeededRows.Phase
import SeededRows.Text.Quoted

namespace SeededRows

open Calendar (Date)

/-- Why a list of weights cannot be sampled. -/
inductive WeightProblem
  | noOptions
  | badWeight
  | allZero
deriving DecidableEq, Repr

/-- The wording of a problem with weights. -/
def WeightProblem.message : WeightProblem → String
  | .noOptions => "Weights sequence is empty/too long/unordered"
  | .badWeight => "A weight is negative, too large or not a valid number"
  | .allZero => "Not enough weights > zero"

/-- The ways in which an argument can be refused. -/
inductive Refusal
  | probability (p : Float)
  | intBounds (min max : Int64)
  | floatBounds (min max : Float)
  | floatSpan (min max : Float)
  | weights (problem : WeightProblem)
  | dateBounds (min max : Date)
  | dateText (given : String) (problem : Date.Problem)
  | bucketLabels (source : String) (labels thresholds : Nat)
  | bucketOrder (source : String)
  | bucketSource (field source : String)
  | reservedField
  | duplicateField (name : String)
  | stripeWidth (width : Nat)
  | stripeCount (rows stripes : Nat)
  | noWorkers
  | noBatchSize
  | noRows
  | noAggregators
  | rowsOutsideStripes (rows width : Nat)
  | alreadyStarted (phase : Phase)
  | noResult (index count : Nat)
  | resultKind (name : String) (expected : Accumulator.Kind)
  /-- A refusal in words of its own. -/
  | other (text : String)

/-- The largest number of stripes, and of rows in a stripe. -/
def stripeLimit : Nat := UInt32.size

/-- The wording of a refusal. -/
def Refusal.message : Refusal → String
  | probability p => "bool probability must be in [0, 1], got " ++ Decimal.plain p
  | intBounds min max =>
    s!"int_range min must be <= max, got {min.toInt} > {max.toInt}"
  | floatBounds min max =>
    "float_range needs finite min <= max, got " ++ Decimal.plain min ++ ".." ++ Decimal.plain max
  | floatSpan min max =>
    "float_range span " ++ Decimal.plain min ++ ".." ++ Decimal.plain max ++
      " is too wide to sample"
  | weights problem => "choice weights: " ++ problem.message
  | dateBounds min max => s!"date_range min must be <= max, got {min.text} > {max.text}"
  | dateText given problem => s!"invalid date '{given}': {problem.message}"
  | bucketLabels source labels thresholds =>
    s!"bucket on '{source}' needs one more label than thresholds ({labels} labels, " ++
      s!"{thresholds} thresholds)"
  | bucketOrder source => s!"bucket thresholds on '{source}' must be strictly increasing"
  | bucketSource field source =>
    s!"field '{field}' buckets '{source}', which must be declared before it"
  | reservedField => "field 'id' is reserved for row identifiers"
  | duplicateField name => s!"duplicate distribution for field '{name}'"
  | stripeWidth width => s!"stripe width must be in 1..={stripeLimit}, got {width}"
  | stripeCount rows stripes => s!"{rows} rows need {stripes} stripes, more than {stripeLimit}"
  | noWorkers => "num_processes must be >= 1"
  | noBatchSize => "batch_size must be >= 1"
  | noRows => "num_rows must be >= 1"
  | noAggregators => "at least one aggregator is required"
  | rowsOutsideStripes rows width => s!"num_rows {rows} does not fit in stripes of width {width}"
  | alreadyStarted phase => s!"coordinator already started (state: {phase.label})"
  | noResult index count => s!"no aggregate result at index {index} (have {count})"
  | resultKind name expected => s!"aggregate result '{name}' is not a {expected.label}"
  | other text => text

/-- What can go wrong in the library. -/
inductive Fault
  /-- An option or argument is refused. -/
  | invalidArgument (refusal : Refusal)
  /-- A fold over no values. -/
  | emptyInput (detail : String)
  /-- Aggregators need fields that nothing draws; a set of names. -/
  | missingFields (names : List String)
  /-- An aggregator failed in one of its hooks. -/
  | aggregator (name message : String)
  /-- A distribution failed to draw. -/
  | distribution (field message : String)

namespace Fault

/-- The name of the kind of a fault. -/
def kind : Fault → String
  | invalidArgument _ => "invalid_argument"
  | emptyInput _ => "empty_input"
  | missingFields _ => "missing_fields"
  | aggregator .. => "aggregator"
  | distribution .. => "distribution"

/-- The wording of a fault. -/
def message : Fault → String
  | invalidArgument refusal => "invalid argument: " ++ refusal.message
  | emptyInput detail => "empty input: " ++ detail
  | missingFields names => "cannot generate needed fields: " ++ String.intercalate ", " names
  | aggregator name message => s!"aggregator '{name}' failed: {message}"
  | distribution field message => s!"distribution for field '{field}' failed: {message}"

/-- The diagnostic text of a fault. -/
def diagnostic : Fault → String
  | invalidArgument refusal => "InvalidArgument(" ++ Text.quoted refusal.message ++ ")"
  | emptyInput detail => "EmptyInput(" ++ Text.quoted detail ++ ")"
  | missingFields names => "MissingFields(" ++ Text.braced (names.map Text.quoted) ++ ")"
  | aggregator name message =>
    Text.record "Aggregator" [("name", Text.quoted name), ("message", Text.quoted message)] false
  | distribution field message =>
    Text.record "Distribution" [("field", Text.quoted field), ("message", Text.quoted message)] false

end Fault

/-- A crash: code gave up without an error of its own, perhaps with a text. -/
structure Crash where
  text? : Option String
deriving DecidableEq, Repr

/-- The wording of a crash. -/
def Crash.message (c : Crash) : String := c.text?.getD "panic during generation"

/-- What stops a hook of an aggregator or a draw of a distribution. -/
inductive Stop
  | fault (f : Fault)
  | crash (c : Crash)

/-- Stops with a refused argument. -/
def refuse {α : Type} (refusal : Refusal) : Except Fault α := .error (.invalidArgument refusal)

/-- A fault as what stops a hook. -/
def Stop.ofFault {α : Type} : Except Fault α → Except Stop α := Except.mapError .fault

instance : MonadLift (Except Fault) (Except Stop) := ⟨Stop.ofFault⟩

end SeededRows
