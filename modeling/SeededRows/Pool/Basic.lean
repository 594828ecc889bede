/-
  SeededRows.Pool.Basic

  A pool of workers and its coordinator as a machine that moves in small steps, one move of
  the coordinator or of a worker at a time. Any order of moves that the machine allows is a
  run. Messages arrive in the order in which they were sent, tasks go to whichever worker
  takes them.
-/
import SeededRows.Pool.Worker
import SeededRows.Progress
import SeededRows.Tally

namespace SeededRows

namespace Pool

/-- What becomes of the copy of an aggregator that a worker is given, by the number of the worker
and the place of the aggregator. What workers find outside can differ, a full disk for example, so
copies of one aggregator need not fare alike. -/
abbrev Settling (σ : Type) := Nat → Nat → Copy σ → Copy σ

/-- All workers find the same outside. -/
def Settling.alike {σ : Type} : Settling σ := fun _ _ c => c

/-- What does not change while a pool runs. -/
structure Setup (σ : Type) where
  order : FieldOrder
  /-- The copies of aggregators from which the workers' copies are made. -/
  configured : List (Copy σ)
  entropy : Entropy
  settle : Settling σ

/-- The copies of aggregators that a worker makes its own from. -/
def Setup.given {σ : Type} (setup : Setup σ) (worker : Nat) : List (Copy σ) :=
  (setup.configured.map Copy.clone).mapIdx (setup.settle worker)

/-- What the coordinator is about to do. -/
inductive Control
  /-- Look for a failure. -/
  | atFailures
  /-- Look for a report. -/
  | atReports
  /-- Wait until there is something to look at. -/
  | asleep
  /-- Look for a failure after a while without reports, in which some workers had stopped. -/
  | checking (stopped : List Nat)
  /-- Look whether the workers that had stopped left reports. -/
  | checkingReports (stopped : List Nat)
  /-- Send the word that no more batches follow, a number of times. -/
  | closing (left : Nat)
  /-- Wait for every worker to exit after a run that went well so far. -/
  | joining
  /-- Wait for every worker to exit after an error. -/
  | aborting (error : RunError)
  | returned (outcome : Except RunError Unit)

/-- A move: of a worker, of the coordinator, or of the clock, when the coordinator has waited for
reports for a while. A worker that works on a batch may see from some row on that the run is
cancelled. -/
inductive Move
  | worker (id : Nat) (seen : Option Nat)
  | coordinator
  | clock
deriving DecidableEq, Repr

end Pool

open Pool in
/-- The state of a pool. -/
structure Pool (σ : Type) where
  /-- The batches that have not been handed out. -/
  rest : Batches RowIds.Stream
  /-- The tasks that no worker has taken, the first one to be taken first. -/
  tasks : List Task
  /-- Whether more tasks can come. -/
  tasksOpen : Bool
  /-- The reports that have not been read, the earliest first. -/
  reports : List Report
  /-- The failures that have not been read, the earliest first. -/
  failures : List (Nat × ErrorInfo)
  workers : List (Worker σ)
  /-- The worker that has the lock of the tasks. -/
  lock : Option Nat
  cancel : Bool
  /-- The batches that are handed out and not back, with their sizes. -/
  outstanding : List (BatchId × Nat)
  tally : Tally
  progress : Progress
  phase : Phase
  /-- The phases that were left, the latest first. -/
  passed : List Phase
  /-- The workers that have reported their end. -/
  dying : List Nat
  control : Control

namespace Pool

variable {σ : Type}

/-! ## Messages -/

/-- Hands a batch out. -/
def dispatch (p : Pool σ) (b : Batch) : Pool σ :=
  { p with
    outstanding := (b.id, b.size) :: p.outstanding.filter (·.1 ≠ b.id)
    tasks := p.tasks ++ [.batch b] }

/-- How many hold on to the receiving end of the tasks: the coordinator itself, as long as it runs,
and every worker that is not gone. -/
def receivers (p : Pool σ) : Nat := 1 + p.workers.countP fun w => !w.hasExited

/-- Why no task can be sent, if none can. -/
def refusal? (p : Pool σ) : Option Violation :=
  if !p.tasksOpen then some .tasksClosed
  else if p.receivers = 0 then some .noReceiver
  else none

/-- Hands a batch out, if a task can be sent. -/
def tryDispatch (p : Pool σ) (b : Batch) : Except Violation (Pool σ) :=
  match p.refusal? with
  | some violation => .error violation
  | none => .ok (p.dispatch b)

/-- Hands the next batch out, if there is one. -/
def refill (p : Pool σ) : Except Violation (Pool σ) :=
  match p.rest.next? with
  | some (b, rest) => { p with rest }.tryDispatch b
  | none => .ok p

/-! ## Moves of workers -/

/-- Replaces a worker. -/
def setWorker (p : Pool σ) (id : Nat) (w : Worker σ) : Pool σ :=
  { p with workers := p.workers.set id w }

/-- Sends a report. -/
def send (p : Pool σ) (r : Report) : Pool σ := { p with reports := p.reports ++ [r] }

/-- Sends a failure. -/
def sendFailure (p : Pool σ) (id : Nat) (info : ErrorInfo) : Pool σ :=
  { p with failures := p.failures ++ [(id, info)] }

/-- Whether the run is seen to be cancelled before the row in a place. -/
def seesCancel (seen : Option Nat) (place : Nat) : Bool :=
  match seen with
  | some first => first ≤ place
  | none => false

/-- The move of a worker in its stage; `none` when it has to wait or is gone. -/
def moveWorker (setup : Setup σ) (p : Pool σ) (id : Nat) (seen : Option Nat) (w : Worker σ) :
    Option (Pool σ) :=
  match w.stage with
  | .spawned => some (p.setWorker id (w.begin setup.order (setup.given id)))
  | .waiting =>
    match p.lock with
    | none => some ({ p with lock := some id }.setWorker id { w with stage := .receiving })
    | some _ => none
  | .receiving =>
    match p.tasks with
    | task :: tasks =>
      some ({ p with tasks, lock := none }.setWorker id { w with stage := .took (some task) })
    | [] =>
      if p.tasksOpen then none
      else some ({ p with lock := none }.setWorker id { w with stage := .took none })
  | .took task => some (p.setWorker id (w.consider p.cancel task))
  | .working b =>
    if seen.isSome ∧ ¬ p.cancel then none
    else
      match w.work setup.entropy (seesCancel seen) b with
      | (some results, w) => some ((p.setWorker id w).send (.generated b.id id results))
      | (none, w) => some (p.setWorker id w)
  | .finishing =>
    match w.finish with
    | w =>
      match w.stage with
      | .leaving => some ((p.setWorker id w).send (.dying id))
      | _ => some (p.setWorker id w)
  | .failing info held =>
    some ((p.setWorker id { w with stage := .cleaning held }).sendFailure id info)
  | .cleaning held =>
    some (p.setWorker id { w.finishQuietly with stage := .exited .failed held })
  | .leaving => some (p.setWorker id { w with stage := .exited .finished none })
  | .exited .. => none

/-! ## Moves of the coordinator -/

/-- Whether every worker is gone. -/
def allExited (p : Pool σ) : Bool := p.workers.all Worker.hasExited

/-- Gives the run up: the workers are told, and what they have sent is thrown away. -/
def abort (p : Pool σ) (error : RunError) : Pool σ :=
  { p with
    cancel := true
    tasksOpen := false
    reports := []
    failures := []
    control := .aborting error }

/-- Enters a phase. -/
def enter (p : Pool σ) (phase : Phase) : Pool σ := { p with phase, passed := p.phase :: p.passed }

/-- The phases passed through, from the first to the present one. -/
def phases (p : Pool σ) : List Phase := (p.phase :: p.passed).reverse

/-- Goes on waiting for batches; when none is outstanding, the workers are to finish. -/
def awaitBatches (p : Pool σ) : Pool σ :=
  if p.outstanding.isEmpty then
    { p.enter .draining with control := .closing p.workers.length }
  else { p with control := .atFailures }

/-- Takes the accumulators of a batch. -/
def receive (p : Pool σ) (id : BatchId) (worker : Nat) (results : List Accumulator) : Pool σ :=
  match p.outstanding.lookup id with
  | none => p.abort (.protocol (.unexpectedBatch id worker))
  | some rows =>
    let p := { p with outstanding := p.outstanding.filter (·.1 ≠ id) }
    match p.tally.record results with
    | .error violation => p.abort (.protocol violation)
    | .ok tally =>
      let p := { p with tally, progress := p.progress.add rows }
      match p.refill with
      | .error violation => p.abort (.protocol violation)
      | .ok p => p.awaitBatches

/-- Takes the word that a worker has finished; when all have, no more tasks can come. -/
def noteDying (p : Pool σ) (worker : Nat) : Pool σ :=
  let dying := if p.dying.contains worker then p.dying else worker :: p.dying
  if dying.length < p.workers.length then { p with dying, control := .atFailures }
  else { p with dying, tasksOpen := false, control := .joining }

/-- Takes a report. -/
def read (p : Pool σ) : Report → Pool σ
  | .generated id worker results =>
    if p.phase = .draining then p.abort (.protocol (.batchWhileDraining id worker))
    else p.receive id worker results
  | .dying worker =>
    if p.phase = .draining then p.noteDying worker
    else p.abort (.protocol (.exitWhileOutstanding worker))

/-- The workers that are gone without having reported their end. -/
def stopped (p : Pool σ) : List Nat :=
  (List.range p.workers.length).filter fun id =>
    (p.workers[id]?.any Worker.hasExited) && !p.dying.contains id

/-- The first worker, in order, that did not end by finishing. -/
def abnormalExit? (p : Pool σ) : Option (Nat × WorkerExit) :=
  p.workers.zipIdx.findSome? fun (w, id) =>
    match w.stage.exit? with
    | some exit => if exit = .finished then none else some (id, exit)
    | none => none

/-- Whether the coordinator has something to look at: a failure, a report, or the end of all
reports. -/
def hasNews (p : Pool σ) : Bool := !p.failures.isEmpty || !p.reports.isEmpty || p.allExited

/-- The move of the coordinator; `none` when it has to wait or has returned. -/
def moveCoordinator (p : Pool σ) : Option (Pool σ) :=
  match p.control with
  | .atFailures =>
    match p.failures with
    | (worker, info) :: failures => some ({ p with failures }.abort (.workerFailure worker info))
    | [] => some { p with control := .atReports }
  | .atReports =>
    match p.reports with
    | r :: reports => some ({ p with reports }.read r)
    | [] =>
      if p.allExited then
        some (p.abort (.protocol
          (if p.phase = .draining then .reportsClosedBeforeFinish else .reportsClosedEarly)))
      else some { p with control := .asleep }
  | .asleep => if p.hasNews then some { p with control := .atFailures } else none
  | .checking stopped =>
    match p.failures with
    | (worker, info) :: failures => some ({ p with failures }.abort (.workerFailure worker info))
    | [] => some { p with control := .checkingReports stopped }
  | .checkingReports stopped =>
    match stopped with
    | worker :: _ =>
      if p.reports.isEmpty then some (p.abort (.protocol (.stoppedSilently worker)))
      else some { p with control := .atFailures }
    | [] => some { p with control := .atFailures }
  | .closing left =>
    match left with
    | 0 =>
      if p.dying.length < p.workers.length then some { p with control := .atFailures }
      else some { p with tasksOpen := false, control := .joining }
    | left + 1 =>
      match p.refusal? with
      | some violation => some (p.abort (.protocol violation))
      | none => some { p with tasks := p.tasks ++ [.done], control := .closing left }
  | .joining =>
    if p.allExited then
      match p.abnormalExit? with
      | some (worker, exit) =>
        some { p.enter .terminated with
          control := .returned (.error (.protocol (.endedWith worker exit))) }
      | none => some { p.enter .terminated with control := .returned (.ok ()) }
    else none
  | .aborting error =>
    if p.allExited then
      some { p.enter .terminated with outstanding := [], control := .returned (.error error) }
    else none
  | .returned _ => none

/-- The move of the clock: a coordinator that sleeps wakes up, and one that finds no report looks
for workers that have stopped. -/
def moveClock (p : Pool σ) : Option (Pool σ) :=
  match p.control with
  | .atReports =>
    if p.reports.isEmpty ∧ ¬ p.allExited then some { p with control := .checking p.stopped }
    else none
  | .asleep => some { p with control := .atFailures }
  | _ => none

/-! ## The beginning -/

/-- How many batches per worker are handed out at first. -/
def queuedPerWorker : Nat := 4

/-- A pool before its first move: the first batches are handed out. If they cannot be, there are
no workers yet and the coordinator returns. -/
def ofBatches (setup : Setup σ) (batches : Batches RowIds.Stream) (workers : Nat)
    (progress : Progress) : Pool σ :=
  let (first, rest) := batches.take (queuedPerWorker * workers)
  let p : Pool σ :=
    { rest
      tasks := []
      tasksOpen := true
      reports := []
      failures := []
      workers := List.replicate workers .fresh
      lock := none
      cancel := false
      outstanding := []
      tally := .empty setup.configured.length
      progress
      phase := .running
      passed := [.filling]
      dying := []
      control := .atFailures }
  match first.foldlM tryDispatch p with
  | .ok p => p.awaitBatches
  | .error violation =>
    { p with
      workers := []
      phase := .filling
      passed := []
      control := .returned (.error (.protocol violation)) }

/-! ## Runs -/

/-- One move; `none` when it is not possible. -/
def step (setup : Setup σ) (p : Pool σ) : Move → Option (Pool σ)
  | .worker id seen => p.workers[id]?.bind (p.moveWorker setup id seen)
  | .coordinator => p.moveCoordinator
  | .clock => p.moveClock

/-- One move, or nothing when it is not possible. -/
def advance (setup : Setup σ) (p : Pool σ) (m : Move) : Pool σ := (p.step setup m).getD p

/-- The outcome, once the coordinator has returned. -/
def outcome? (p : Pool σ) : Option (Except RunError Unit) :=
  match p.control with
  | .returned outcome => some outcome
  | _ => none

/-- Makes up to a number of moves, as a schedule has them from a point in time on, until the
coordinator returns. -/
def run (setup : Setup σ) (schedule : Nat → Move) : Nat → Nat → Pool σ → Pool σ
  | 0, _, p => p
  | moves + 1, time, p =>
    if p.outcome?.isSome then p
    else run setup schedule moves (time + 1) (p.advance setup (schedule time))

/-- The schedule in which every worker moves once, then the coordinator twice, and so on. -/
def rounds (workers : Nat) (time : Nat) : Move :=
  let turn := time % (workers + 2)
  if turn < workers then .worker turn none else .coordinator

/-- A number of moves in rounds after which a pool of that many workers has returned. -/
def roundsNeeded (workers rows : Nat) : Nat := (workers + 2) * (4 * (rows + workers) + 64)

end Pool

end SeededRows
