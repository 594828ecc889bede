/-
  SeededRows.Failure

  How a run can fail: with a fault of the library, because a worker failed, because it was
  cancelled, because a message came that was not expected, or for a reason outside. What a
  worker tells about its failure outlives the worker.
-/
import SeededRows.RowIds.Batch

namespace SeededRows

/-- What a worker tells about a failure. -/
structure ErrorInfo where
  kind : String
  message : String
  /-- The fault behind the failure, if there is one. -/
  cause : Option Fault

/-- How a worker ends. -/
inductive WorkerExit
  /-- After it was told that no more batches follow, and all its aggregators are done. -/
  | finished
  /-- After it reported a failure. -/
  | failed
  /-- Because the run was given up; nothing is reported. -/
  | cancelled
deriving DecidableEq, Repr

/-- The name of an exit in messages. -/
def WorkerExit.label : WorkerExit → String
  | finished => "Finished"
  | failed => "Failed"
  | cancelled => "Cancelled"

/-- The ways in which the messages of a run can break its protocol. -/
inductive Violation
  | tasksClosed
  | noReceiver
  | unexpectedBatch (id : BatchId) (worker : Nat)
  | exitWhileOutstanding (worker : Nat)
  | reportsClosedEarly
  | batchWhileDraining (id : BatchId) (worker : Nat)
  | reportsClosedBeforeFinish
  | stoppedSilently (worker : Nat)
  | endedWith (worker : Nat) (exit : WorkerExit)
  | threadCrashed (worker : Nat)
  | resultCount (expected got : Nat)
  | noMoreTasks
  | noMoreReports
  /-- A violation in words of its own. -/
  | other (text : String)
deriving DecidableEq, Repr

/-- The wording of a violation. -/
def Violation.message : Violation → String
  | tasksClosed => "task channel already closed"
  | noReceiver => "every worker has exited"
  | unexpectedBatch id worker => s!"unexpected batch {id.text} from worker {worker}"
  | exitWhileOutstanding worker => s!"worker {worker} exited while batches were outstanding"
  | reportsClosedEarly => "result channel closed while batches were outstanding"
  | batchWhileDraining id worker =>
    s!"unexpected batch {id.text} from worker {worker} while draining"
  | reportsClosedBeforeFinish => "result channel closed before every worker finished"
  | stoppedSilently worker => s!"worker {worker} stopped without reporting"
  | endedWith worker exit => s!"worker {worker} ended with {exit.label}"
  | threadCrashed worker => s!"worker {worker} thread panicked"
  | resultCount expected got => s!"expected {expected} batch results, got {got}"
  | noMoreTasks => "task channel closed before done"
  | noMoreReports => "result channel closed before done"
  | other text => text

/-- Why a run failed. -/
inductive RunError
  | fault (f : Fault)
  /-- A worker failed; the calling thread is worker 0 of a run without workers. -/
  | workerFailure (worker : Nat) (info : ErrorInfo)
  | cancelled
  | protocol (violation : Violation)
  | io (text : String)
  | csv (text : String)
  | json (text : String)

namespace RunError

/-- The name of the kind of an error. -/
def kind : RunError → String
  | fault f => f.kind
  | workerFailure .. => "worker_failure"
  | cancelled => "cancelled"
  | protocol _ => "protocol"
  | io _ => "io"
  | csv _ => "csv"
  | json _ => "json"

/-- The wording of an error. -/
def message : RunError → String
  | fault f => f.message
  | workerFailure worker info => s!"worker {worker} failed ({info.kind}): {info.message}"
  | cancelled => "generation cancelled"
  | protocol violation => "worker protocol violation: " ++ violation.message
  | io text => "io error: " ++ text
  | csv text => "csv error: " ++ text
  | json text => "json error: " ++ text

/-- The fault behind an error, also when it happened on a worker. -/
def cause? : RunError → Option Fault
  | fault f => some f
  | workerFailure _ info => info.cause
  | _ => none

end RunError

namespace ErrorInfo

/-- What is told about an error. The kind of a failure on a worker is that of its own failure. -/
def ofError (e : RunError) : ErrorInfo :=
  let kind := match e with
    | .workerFailure _ info => info.kind
    | e => e.kind
  ⟨kind, e.message, e.cause?⟩

/-- What is told about a crash. -/
def ofCrash (c : Crash) : ErrorInfo := ⟨"panic", c.message, none⟩

/-- What is told about what stopped a hook or a draw. -/
def ofStop : Stop → ErrorInfo
  | .fault f => ofError (.fault f)
  | .crash c => ofCrash c

end ErrorInfo

end SeededRows
