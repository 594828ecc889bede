/-
  SeededRows.Pool.Message

  What a coordinator and its workers send to one another: tasks flow to the workers, reports
  flow back. Failures are sent apart from the reports, so that the coordinator can look at
  them first.
-/
import SeededRows.Accumulator
import SeededRows.RowIds.Batch

namespace SeededRows.Pool

/-- Work for a worker. -/
inductive Task
  | batch (b : Batch)
  /-- No more batches follow. -/
  | done

/-- A regular report of a worker. -/
inductive Report
  /-- The accumulators of a batch, one per aggregator. -/
  | generated (id : BatchId) (worker : Nat) (results : List Accumulator)
  /-- The worker has finished and leaves. -/
  | dying (worker : Nat)

/-- The batch of a task. -/
def Task.batch? : Task → Option Batch
  | batch b => some b
  | done => none

/-- The diagnostic text of a task. -/
def Task.diagnostic : Task → String
  | batch b => "Batch(" ++ b.diagnostic ++ ")"
  | done => "Done"

/-- The diagnostic text of a report. -/
def Report.diagnostic : Report → String
  | generated id worker results =>
    Text.record "Generated"
      [("id", id.diagnostic), ("worker_id", toString worker), ("results", toString results.length)]
      false
  | dying worker => Text.record "Dying" [("worker_id", toString worker)] false

end SeededRows.Pool
