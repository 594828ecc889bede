/-
  SeededRows.Coordinator

  The coordinator of a run. With one worker it works through the batches on the calling thread,
  with more it drives a pool; in both cases it folds the accumulators of the batches on copies
  of the aggregators of its own, which never see a row. A coordinator can be started once.
-/
import SeededRows.Pool.Basic
import SeededRows.Settings

namespace SeededRows

/-- How a start of a coordinator ends. -/
inductive Ending
  | finished (results : Results)
  | failed (error : RunError)
  /-- The calling thread crashed. -/
  | crashed (crash : Crash)
  /-- The schedule ended before the run did. -/
  | unfinished

/-- A coordinator. -/
structure Coordinator (σ : Type) where
  settings : Settings
  order : FieldOrder
  /-- The coordinator's own copies of the aggregators. -/
  configured : List (Copy σ)
  phase : Phase

/-- What a start of a coordinator leaves behind. -/
structure Run (σ : Type) where
  ending : Ending
  /-- The coordinator afterwards. -/
  coordinator : Coordinator σ
  /-- The copies of the aggregators of every worker. -/
  workerCopies : List (List (Copy σ))
  /-- The phases passed through, from the first to the last. -/
  phases : List Phase
  progress : Progress

/-! ## Work on the calling thread -/

/-- What became of work that is guarded: it was finished, given up, or it failed. -/
inductive Guarded (α : Type)
  | finished (a : α)
  | cancelled
  | failed (info : ErrorInfo)

/-- What is told about a halted batch. -/
def Guarded.ofHalt {α : Type} : Halt → Guarded α
  | .stop s => .failed (.ofStop s)
  | .cancelled => .cancelled

namespace Inline

variable {σ : Type}

/-- Works through at most a number of batches. -/
def drive (entropy : Entropy) : Nat → Batches RowIds.Stream → Engine σ → Tally → Progress →
    Guarded Tally × Engine σ × Progress
  | 0, _, engine, tally, progress => (.finished tally, engine, progress)
  | n + 1, batches, engine, tally, progress =>
    match batches.next? with
    | none => (.finished tally, engine, progress)
    | some (b, batches) =>
      match engine.process entropy (fun _ => false) b.rows with
      | (.error h, engine) => (.ofHalt h, engine, progress)
      | (.ok results, engine) =>
        match tally.record results with
        | .error violation => (.failed (.ofError (.protocol violation)), engine, progress)
        | .ok tally => drive entropy n batches engine tally (progress.add b.size)

/-- Works through all batches with an engine of its own, whose aggregators are torn down in any
case. The copies come back. -/
def run (order : FieldOrder) (configured : List (Copy σ)) (entropy : Entropy)
    (batches : Batches RowIds.Stream) (progress : Progress) :
    Guarded Tally × List (Copy σ) × Progress :=
  match Engine.start order configured with
  | (.error s, copies) => (.failed (.ofStop s), copies, progress)
  | (.ok engine, _) =>
    match drive entropy (batches.rows.remaining + 1) batches engine
        (.empty configured.length) progress with
    | (.finished tally, engine, progress) =>
      match engine.done with
      | (.ok (), engine) => (.finished tally, engine.copies, progress)
      | (.error s, engine) => (.failed (.ofStop s), engine.copies, progress)
    | (.cancelled, engine, progress) => (.cancelled, engine.copies, progress)
    | (.failed info, engine, progress) => (.failed info, engine.done.2.copies, progress)

end Inline

/-! ## The final reduction -/

/-- Folds the accumulators of each aggregator on a copy of it; the first one that stops ends it. -/
def Copies.reduce {σ : Type} : List (Copy σ) → Tally → Except Stop Results × List (Copy σ)
  | c :: rest, accumulators :: tally =>
    match c.reduce accumulators.reverse with
    | (.error s, c) => (.error s, c :: rest)
    | (.ok v, c) =>
      let (r, rest) := Copies.reduce rest tally
      (r.map ((c.aggregator.name, v) :: ·), c :: rest)
  | copies, _ => (.ok [], copies)

namespace Coordinator

variable {σ : Type}

/-- A coordinator whose settings are valid and whose fields can all be drawn. -/
def ofSettings (settings : Settings) (order : FieldOrder) (configured : List (Copy σ)) :
    Except Fault (Coordinator σ) := do
  settings.validate configured.length
  let _ ← selectFields order configured
  return ⟨settings, order, configured, .filling⟩

/-- A run that ends before any work was done. -/
def refused (c : Coordinator σ) (ending : Ending) : Run σ where
  ending
  coordinator := c
  workerCopies := []
  phases := [c.phase]
  progress := .ofTotal c.settings.rows c.settings.verbose

/-- The ending of a final reduction. -/
def reduced : Except Stop Results → Ending
  | .ok results => .finished results
  | .error (.fault f) => .failed (.fault f)
  | .error (.crash crash) => .crashed crash

/-- Runs on the calling thread. -/
def runInline (c : Coordinator σ) (entropy : Entropy) (rows : RowIds.Stream) : Run σ :=
  let batches := Batches.ofSize rows c.settings.batchSize.toNat
  let start := Progress.ofTotal c.settings.rows c.settings.verbose
  match Inline.run c.order c.configured entropy batches start with
  | (.finished tally, copies, progress) =>
    match Copies.reduce c.configured tally with
    | (.error (.crash crash), configured) =>
      { ending := .crashed crash
        coordinator := { c with configured, phase := .draining }
        workerCopies := [copies]
        phases := [.filling, .running, .draining]
        progress }
    | (r, configured) =>
      { ending := reduced r
        coordinator := { c with configured, phase := .terminated }
        workerCopies := [copies]
        phases := [.filling, .running, .draining, .terminated]
        progress }
  | (.cancelled, copies, progress) =>
    { ending := .failed .cancelled
      coordinator := { c with phase := .terminated }
      workerCopies := [copies]
      phases := [.filling, .running, .terminated]
      progress }
  | (.failed info, copies, progress) =>
    { ending := .failed (.workerFailure 0 info)
      coordinator := { c with phase := .terminated }
      workerCopies := [copies]
      phases := [.filling, .running, .terminated]
      progress }

/-- The setup of a pool of the coordinator. -/
def setup (c : Coordinator σ) (entropy : Entropy) (settle : Pool.Settling σ) : Pool.Setup σ :=
  ⟨c.order, c.configured, entropy, settle⟩

/-- The pool of a coordinator before its first move. -/
def pool (c : Coordinator σ) (entropy : Entropy) (settle : Pool.Settling σ) (rows : RowIds.Stream) :
    Pool σ :=
  .ofBatches (c.setup entropy settle) (.ofSize rows c.settings.batchSize.toNat) c.settings.workers
    (.ofTotal c.settings.rows c.settings.verbose)

/-- The run that a pool makes, as far as it got. -/
def ofPool (c : Coordinator σ) (p : Pool σ) : Run σ :=
  let (ending, configured) := match p.outcome? with
    | none => (Ending.unfinished, c.configured)
    | some (.error error) => (.failed error, c.configured)
    | some (.ok ()) =>
      let (r, configured) := Copies.reduce c.configured p.tally
      (reduced r, configured)
  { ending
    coordinator := { c with configured, phase := p.phase }
    workerCopies := p.workers.map Pool.Worker.copies
    phases := p.phases
    progress := p.progress }

/-- The bytes that a pool needs for each of its workers at once. Half of all addresses is the most
that there is. -/
def handleSize : Nat := 24

/-- Whether the workers of a pool, and the batches queued for them, can be counted by a machine. -/
def fits (workers : Nat) : Bool :=
  2 * (handleSize * workers) < UInt64.size && Pool.queuedPerWorker * workers < UInt64.size

/-- Runs on a pool, as a schedule has it. -/
def runPool (c : Coordinator σ) (entropy : Entropy) (settle : Pool.Settling σ)
    (schedule : Nat → Pool.Move) (moves : Nat) (rows : RowIds.Stream) : Run σ :=
  if fits c.settings.workers then
    c.ofPool ((c.pool entropy settle rows).run (c.setup entropy settle) schedule moves 0)
  else c.refused (.crashed ⟨some "capacity overflow"⟩)

/-- Starts a coordinator. The row ids of a run without a seed are shuffled by `ids`, its rows are
drawn from `entropy`. A pool moves as the schedule has it, and its workers fare as `settle` says. -/
def startAmid (c : Coordinator σ) (ids : Random.Source) (entropy : Entropy)
    (settle : Pool.Settling σ) (schedule : Nat → Pool.Move) (moves : Nat) : Run σ :=
  if c.phase = .filling then
    match c.settings.rowStream ids with
    | .error f => c.refused (.failed (.fault f))
    | .ok rows =>
      if c.settings.workers = 1 then c.runInline entropy rows
      else c.runPool entropy settle schedule moves rows
  else c.refused (.failed (.fault (.invalidArgument (.alreadyStarted c.phase))))

/-- Starts a coordinator whose workers all find the same outside. -/
def startWith (c : Coordinator σ) (ids : Random.Source) (entropy : Entropy)
    (schedule : Nat → Pool.Move) (moves : Nat) : Run σ :=
  c.startAmid ids entropy .alike schedule moves

/-- Starts a coordinator whose pool moves in rounds. -/
def start (c : Coordinator σ) (ids : Random.Source) (entropy : Entropy) : Run σ :=
  c.startWith ids entropy (Pool.rounds c.settings.workers)
    (Pool.roundsNeeded c.settings.workers c.settings.rows)

end Coordinator

end SeededRows
