/-
  SeededRows.Pool.Worker

  A worker of a pool: the stage it is in, its engine, and what became of its aggregators. The
  effects of a stage on the worker itself are functions here; what it sends and takes is the
  pool's matter.
-/
import SeededRows.Engine
import SeededRows.Pool.Message

namespace SeededRows.Pool

/-- What a worker is about to do. -/
inductive Stage
  /-- Make its engine. -/
  | spawned
  /-- Get the lock of the tasks, which one worker at a time can have. -/
  | waiting
  /-- Take a task, once there is one or no more can come; the lock is given back with it. -/
  | receiving
  /-- Look whether the run is cancelled; `none` when no task can come any more. -/
  | took (task : Option Task)
  | working (b : Batch)
  /-- Tear its aggregators down, because no more batches follow. -/
  | finishing
  /-- Report a failure, which happened while it held a batch, perhaps. -/
  | failing (info : ErrorInfo) (held : Option Batch)
  /-- Tear its aggregators down after a failure. -/
  | cleaning (held : Option Batch)
  /-- Exit, after its last report. -/
  | leaving
  | exited (exit : WorkerExit) (held : Option Batch)

/-- The batch that a worker holds, or held when it failed or was cancelled. -/
def Stage.batch? : Stage → Option Batch
  | took (some task) => task.batch?
  | working b => some b
  | failing _ held => held
  | cleaning held => held
  | exited _ held => held
  | _ => none

/-- How a worker ended, if it did. -/
def Stage.exit? : Stage → Option WorkerExit
  | exited exit _ => some exit
  | _ => none

/-- A worker. -/
structure Worker (σ : Type) where
  stage : Stage
  engine : Option (Engine σ)
  /-- The copies of aggregators of an engine that could not be made. -/
  remains : List (Copy σ)
  /-- Whether its aggregators have been told to finish. -/
  doneAttempted : Bool

namespace Worker

variable {σ : Type}

/-- A worker before its first step. -/
def fresh : Worker σ := ⟨.spawned, none, [], false⟩

/-- The worker's copies of the aggregators. -/
def copies (w : Worker σ) : List (Copy σ) :=
  match w.engine with
  | some e => e.copies
  | none => w.remains

/-- Whether the worker is gone. -/
def hasExited (w : Worker σ) : Bool := w.stage.exit?.isSome

/-- Makes the engine. -/
def begin (w : Worker σ) (order : FieldOrder) (configured : List (Copy σ)) : Worker σ :=
  match Engine.start order configured with
  | (.ok engine, _) => { w with stage := .waiting, engine := some engine }
  | (.error s, copies) => { w with stage := .failing (.ofStop s) none, remains := copies }

/-- Decides about a task that was taken. -/
def consider (w : Worker σ) (cancelled : Bool) (task : Option Task) : Worker σ :=
  if cancelled then { w with stage := .exited .cancelled (task.bind Task.batch?) }
  else
    match task with
    | some (.batch b) => { w with stage := .working b }
    | some .done => { w with stage := .finishing }
    | none => { w with stage := .failing (.ofError (.protocol .noMoreTasks)) none }

/-- Works on a batch. The accumulators come back when it succeeds. -/
def work (w : Worker σ) (entropy : Entropy) (cancelled : Nat → Bool) (b : Batch) :
    Option (List Accumulator) × Worker σ :=
  match w.engine with
  | none => (none, w)
  | some engine =>
    match engine.process entropy cancelled b.rows with
    | (.ok results, engine) => (some results, { w with stage := .waiting, engine := some engine })
    | (.error .cancelled, engine) =>
      (none, { w with stage := .exited .cancelled (some b), engine := some engine })
    | (.error (.stop s), engine) =>
      (none, { w with stage := .failing (.ofStop s) (some b), engine := some engine })

/-- Tears the aggregators down; the result tells whether something stopped. -/
def tearDown (w : Worker σ) : Except Stop Unit × Worker σ :=
  match w.engine with
  | none => (.ok (), { w with doneAttempted := true })
  | some engine =>
    let (r, engine) := engine.done
    (r, { w with engine := some engine, doneAttempted := true })

/-- Tears the aggregators down because no more batches follow. -/
def finish (w : Worker σ) : Worker σ :=
  match w.tearDown with
  | (.ok (), w) => { w with stage := .leaving }
  | (.error s, w) => { w with stage := .failing (.ofStop s) none }

/-- Tears the aggregators down after a failure, unless they have been told already. Whatever
stops in doing so is passed over. -/
def finishQuietly (w : Worker σ) : Worker σ := if w.doneAttempted then w else w.tearDown.2

end Worker

end SeededRows.Pool
