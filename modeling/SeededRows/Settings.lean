/-
  SeededRows.Settings

  The settings of a run, and the checks that they pass before anything is started.
-/
import SeededRows.RowIds.Batch

namespace SeededRows

/-- The settings of a run. -/
structure Settings where
  /-- The seed of the run; without one every row is drawn from entropy. -/
  randomSeed : Option Int64
  numProcesses : UInt64
  numRows : UInt64
  batchSize : UInt64
  stripeWidth : UInt64
  /-- Whether progress is reported at the level of information. -/
  verbose : Bool
deriving DecidableEq, Repr

namespace Settings

/-- What holds when nothing is set. -/
def default : Settings where
  randomSeed := some 1
  numProcesses := 1
  numRows := 100
  batchSize := 5
  stripeWidth := 1000
  verbose := false

/-- How the rows of a run are identified. -/
def plan (s : Settings) : RowIds.Plan := ⟨s.randomSeed, s.stripeWidth⟩

/-- The number of rows. -/
def rows (s : Settings) : Nat := s.numRows.toNat

/-- The number of workers. -/
def workers (s : Settings) : Nat := s.numProcesses.toNat

/-- Checks the settings of a run with a number of aggregators, where a division is asked for quotients
that are rounded up. The first problem counts. -/
def validateBy {m : Type → Type} [Monad m] [MonadLiftT (Except Fault) m] (divide : Nat → Nat → m Nat)
    (s : Settings) (aggregators : Nat) : m Unit := do
  if s.numProcesses = 0 then refuse .noWorkers
  if s.batchSize = 0 then refuse .noBatchSize
  if s.numRows = 0 then refuse .noRows
  if aggregators = 0 then refuse .noAggregators
  let _ ← s.plan.stripesBy divide 0
  if stripeLimit < (← divide s.rows s.stripeWidth.toNat) then
    refuse (.rowsOutsideStripes s.rows s.stripeWidth.toNat)

/-- Checks the settings of a run with a number of aggregators. -/
def validate (s : Settings) (aggregators : Nat) : Except Fault Unit :=
  s.validateBy (fun a b => .ok (RowIds.Plan.ceilDiv a b)) aggregators

/-- The stream of the rows of a run. -/
def rowStream (s : Settings) (entropy : Random.Source) : Except Fault RowIds.Stream :=
  s.plan.stream entropy s.rows

end Settings

end SeededRows
