/-
  SeededRows.Proofs.Pool.Moves

  All that a move of a pool can do, and the histories of a pool. `WorkerMove` and
  `CoordinatorMove` have one case for each thing that can happen, with what must hold for it to
  happen and the pool that comes out; every invariant of a pool is a case analysis over them, and
  no later proof opens the functions that move a pool.

  A history lists the moves that were made with the pools they were made in. What was recorded
  and what stopped a worker is read off it, so the pool itself need not remember either.
-/
import SeededRows.Pool.Basic

namespace SeededRows.Pool

variable {σ : Type}

/-! ## What a worker can do -/

/-- What stops the guarded work of a worker in its next move, if something does: in making its
engine, in working on a batch, or in tearing its aggregators down. -/
def Worker.stop? (setup : Setup σ) (id : Nat) (seen : Option Nat) (w : Worker σ) : Option Stop :=
  match w.stage with
  | .spawned =>
    match Engine.start setup.order (setup.given id) with
    | (.error s, _) => some s
    | (.ok _, _) => none
  | .working b =>
    match w.engine with
    | none => none
    | some engine =>
      match engine.process setup.entropy (seesCancel seen) b.rows with
      | (.error (.stop s), _) => some s
      | _ => none
  | .finishing =>
    match w.tearDown with
    | (.error s, _) => some s
    | (.ok (), _) => none
  | _ => none

/-- The worker whose guarded work stops in a move, and what stops it. -/
def stop? (setup : Setup σ) (p : Pool σ) : Move → Option (Nat × Stop)
  | .worker id seen => (p.workers[id]?.bind (Worker.stop? setup id seen)).map (id, ·)
  | _ => none

/-- The moves of a worker, with what stops its guarded work. -/
inductive WorkerMove (setup : Setup σ) (p : Pool σ) (id : Nat) (w : Worker σ) :
    Option Stop → Pool σ → Prop
  | begins {engine : Engine σ} {copies : List (Copy σ)} (at_stage : w.stage = .spawned)
      (made : Engine.start setup.order (setup.given id) = (.ok engine, copies)) :
      WorkerMove setup p id w none (p.setWorker id { w with stage := .waiting, engine := some engine })
  | cannotBegin {s : Stop} {copies : List (Copy σ)} (at_stage : w.stage = .spawned)
      (stopped : Engine.start setup.order (setup.given id) = (.error s, copies)) :
      WorkerMove setup p id w (some s)
        (p.setWorker id { w with stage := .failing (.ofStop s) none, remains := copies })
  | locks (at_stage : w.stage = .waiting) (free : p.lock = none) :
      WorkerMove setup p id w none
        ({ p with lock := some id }.setWorker id { w with stage := .receiving })
  | takes {task : Task} {tasks : List Task} (at_stage : w.stage = .receiving)
      (queued : p.tasks = task :: tasks) :
      WorkerMove setup p id w none
        ({ p with tasks, lock := none }.setWorker id { w with stage := .took (some task) })
  | findsClosed (at_stage : w.stage = .receiving) (queued : p.tasks = [])
      (closed : p.tasksOpen = false) :
      WorkerMove setup p id w none
        ({ p with lock := none }.setWorker id { w with stage := .took none })
  | isCancelled {task : Option Task} (at_stage : w.stage = .took task) (cancelled : p.cancel = true) :
      WorkerMove setup p id w none
        (p.setWorker id { w with stage := .exited .cancelled (task.bind Task.batch?) })
  | accepts {b : Batch} (at_stage : w.stage = .took (some (.batch b))) (going : p.cancel = false) :
      WorkerMove setup p id w none (p.setWorker id { w with stage := .working b })
  | windsUp (at_stage : w.stage = .took (some .done)) (going : p.cancel = false) :
      WorkerMove setup p id w none (p.setWorker id { w with stage := .finishing })
  | missesEnd (at_stage : w.stage = .took none) (going : p.cancel = false) :
      WorkerMove setup p id w none
        (p.setWorker id { w with stage := .failing (.ofError (.protocol .noMoreTasks)) none })
  | reports {b : Batch} {engine engine' : Engine σ} {results : List Accumulator} {seen : Option Nat}
      (at_stage : w.stage = .working b) (with_engine : w.engine = some engine)
      (allowed : seen.isSome → p.cancel = true)
      (worked : engine.process setup.entropy (seesCancel seen) b.rows = (.ok results, engine')) :
      WorkerMove setup p id w none
        ((p.setWorker id { w with stage := .waiting, engine := some engine' }).send
          (.generated b.id id results))
  | stopsWorking {b : Batch} {engine engine' : Engine σ} {s : Stop} {seen : Option Nat}
      (at_stage : w.stage = .working b) (with_engine : w.engine = some engine)
      (allowed : seen.isSome → p.cancel = true)
      (stopped : engine.process setup.entropy (seesCancel seen) b.rows = (.error (.stop s), engine')) :
      WorkerMove setup p id w (some s)
        (p.setWorker id { w with stage := .failing (.ofStop s) (some b), engine := some engine' })
  | givesUp {b : Batch} {engine engine' : Engine σ} {seen : Option Nat}
      (at_stage : w.stage = .working b) (with_engine : w.engine = some engine)
      (allowed : seen.isSome → p.cancel = true)
      (saw : engine.process setup.entropy (seesCancel seen) b.rows = (.error .cancelled, engine')) :
      WorkerMove setup p id w none
        (p.setWorker id { w with stage := .exited .cancelled (some b), engine := some engine' })
  | idles {b : Batch} (at_stage : w.stage = .working b) (with_engine : w.engine = none) :
      WorkerMove setup p id w none (p.setWorker id w)
  | finishes {w' : Worker σ} (at_stage : w.stage = .finishing) (torn : w.tearDown = (.ok (), w')) :
      WorkerMove setup p id w none ((p.setWorker id { w' with stage := .leaving }).send (.dying id))
  | cannotFinish {w' : Worker σ} {s : Stop} (at_stage : w.stage = .finishing)
      (stopped : w.tearDown = (.error s, w')) :
      WorkerMove setup p id w (some s)
        (p.setWorker id { w' with stage := .failing (.ofStop s) none })
  | tells {info : ErrorInfo} {held : Option Batch} (at_stage : w.stage = .failing info held) :
      WorkerMove setup p id w none
        ((p.setWorker id { w with stage := .cleaning held }).sendFailure id info)
  | cleansUp {held : Option Batch} (at_stage : w.stage = .cleaning held) :
      WorkerMove setup p id w none
        (p.setWorker id { w.finishQuietly with stage := .exited .failed held })
  | leaves (at_stage : w.stage = .leaving) :
      WorkerMove setup p id w none (p.setWorker id { w with stage := .exited .finished none })

/-- The work of a worker on a batch, by what became of it. -/
theorem working_move {setup : Setup σ} {p q : Pool σ} {id : Nat} {seen : Option Nat} {w : Worker σ}
    {b : Batch} (hb : w.stage = .working b) (h : p.moveWorker setup id seen w = some q) :
    WorkerMove setup p id w (w.stop? setup id seen) q := by
  rw [moveWorker, hb] at h
  dsimp only at h
  split at h
  · cases h
  · rename_i hseen
    have hallowed : seen.isSome → p.cancel = true := by
      intro hs
      cases hc : p.cancel with
      | true => rfl
      | false => exact absurd ⟨hs, by simp [hc]⟩ hseen
    rw [Worker.stop?, hb]
    dsimp only
    rw [Worker.work] at h
    cases he : w.engine with
    -- a worker without an engine does nothing at all
    | none =>
      rw [he] at h
      cases h
      exact .idles hb he
    | some engine =>
      rw [he] at h
      dsimp only at h ⊢
      rcases hr : engine.process setup.entropy (seesCancel seen) b.rows with ⟨_ | results, engine'⟩
      · rename_i halt
        rw [hr] at h
        -- the batch was halted, by a fault or a crash or by the cancellation
        cases halt with
        | stop s =>
          cases h
          exact .stopsWorking hb he hallowed hr
        | cancelled =>
          cases h
          exact .givesUp hb he hallowed hr
      · rw [hr] at h
        cases h
        exact .reports hb he hallowed hr

/-- The decision of a worker about a task. -/
theorem took_move {setup : Setup σ} {p : Pool σ} {id : Nat} {w : Worker σ} {task : Option Task}
    (ht : w.stage = .took task) :
    WorkerMove setup p id w none (p.setWorker id (w.consider p.cancel task)) := by
  cases hc : p.cancel with
  | true => exact .isCancelled ht hc
  | false =>
    match task with
    | some (.batch b) => exact .accepts ht hc
    | some .done => exact .windsUp ht hc
    | none => exact .missesEnd ht hc

/-- Every move of a worker is one of the cases. -/
theorem moveWorker_cases {setup : Setup σ} {p q : Pool σ} {id : Nat} {seen : Option Nat}
    {w : Worker σ} (h : p.moveWorker setup id seen w = some q) :
    WorkerMove setup p id w (w.stop? setup id seen) q := by
  cases hs : w.stage with
  | working b => exact working_move hs h
  | spawned =>
    rw [Worker.stop?, hs]
    rw [moveWorker, hs] at h
    dsimp only at h ⊢
    rw [Worker.begin] at h
    rcases he : Engine.start setup.order (setup.given id) with ⟨s | engine, copies⟩
    · rw [he] at h
      cases h
      exact .cannotBegin hs he
    · rw [he] at h
      cases h
      exact .begins hs he
  | waiting =>
    rw [Worker.stop?, hs]
    rw [moveWorker, hs] at h
    dsimp only at h ⊢
    split at h
    · rename_i hfree
      cases h
      exact .locks hs hfree
    · cases h
  | receiving =>
    rw [Worker.stop?, hs]
    rw [moveWorker, hs] at h
    dsimp only at h ⊢
    split at h
    · rename_i task tasks hq
      cases h
      exact .takes hs hq
    · rename_i hq
      split at h
      · cases h
      · rename_i hopen
        cases h
        exact .findsClosed hs hq (by simpa using hopen)
  | took task =>
    rw [Worker.stop?, hs]
    rw [moveWorker, hs] at h
    cases h
    exact took_move hs
  | finishing =>
    rw [Worker.stop?, hs]
    rw [moveWorker, hs] at h
    dsimp only at h ⊢
    rw [Worker.finish] at h
    rcases ht : w.tearDown with ⟨s | ⟨⟩, w'⟩
    · rw [ht] at h
      cases h
      exact .cannotFinish hs ht
    · rw [ht] at h
      cases h
      exact .finishes hs ht
  | failing info held =>
    rw [Worker.stop?, hs]
    rw [moveWorker, hs] at h
    cases h
    exact .tells hs
  | cleaning held =>
    rw [Worker.stop?, hs]
    rw [moveWorker, hs] at h
    cases h
    exact .cleansUp hs
  | leaving =>
    rw [Worker.stop?, hs]
    rw [moveWorker, hs] at h
    cases h
    exact .leaves hs
  | exited exit held =>
    rw [moveWorker, hs] at h
    cases h

/-! ## What the coordinator can do -/

/-- A batch that the coordinator has recorded. -/
structure Recording where
  id : BatchId
  worker : Nat
  results : List Accumulator

/-- The batch that the coordinator records in a move, if it records one. -/
def recording? (p : Pool σ) : Move → Option Recording
  | .coordinator =>
    match p.control, p.reports with
    | .atReports, .generated id worker results :: _ =>
      if p.phase ≠ .draining ∧ (p.outstanding.lookup id).isSome ∧ results.length = p.tally.length then
        some ⟨id, worker, results⟩
      else none
    | _, _ => none
  | _ => none

/-- What can be wrong with a report, in the phase in which it is read. -/
inductive Unexpected (p : Pool σ) : Report → Violation → Prop
  | whileDraining {id : BatchId} {worker : Nat} {results : List Accumulator}
      (draining : p.phase = .draining) :
      Unexpected p (.generated id worker results) (.batchWhileDraining id worker)
  | notOutstanding {id : BatchId} {worker : Nat} {results : List Accumulator}
      (absent : p.outstanding.lookup id = none) :
      Unexpected p (.generated id worker results) (.unexpectedBatch id worker)
  | miscounted {id : BatchId} {worker : Nat} {results : List Accumulator}
      (wrong : results.length ≠ p.tally.length) :
      Unexpected p (.generated id worker results) (.resultCount p.tally.length results.length)
  | early {worker : Nat} (running : p.phase ≠ .draining) :
      Unexpected p (.dying worker) (.exitWhileOutstanding worker)

/-- The pool once a batch of some rows has been recorded, before the next one is handed out. -/
def recorded (p : Pool σ) (reports : List Report) (r : Recording) (rows : Nat) : Pool σ :=
  { p with
    reports
    outstanding := p.outstanding.filter (·.1 ≠ r.id)
    tally := List.zipWith (· :: ·) r.results p.tally
    progress := p.progress.add rows }

/-- The moves of the coordinator and of its clock, with what is recorded. -/
inductive CoordinatorMove (p : Pool σ) : Option Recording → Pool σ → Prop
  | readsFailure {worker : Nat} {info : ErrorInfo} {failures : List (Nat × ErrorInfo)}
      (at_control : p.control = .atFailures ∨ ∃ stopped, p.control = .checking stopped)
      (sent : p.failures = (worker, info) :: failures) :
      CoordinatorMove p none ({ p with failures }.abort (.workerFailure worker info))
  | seesNoFailure (at_control : p.control = .atFailures) (sent : p.failures = []) :
      CoordinatorMove p none { p with control := .atReports }
  | rejects {r : Report} {reports : List Report} {violation : Violation} {p' : Pool σ}
      (at_control : p.control = .atReports) (sent : p.reports = r :: reports)
      (wrong : Unexpected p r violation)
      (same : p'.workers = p.workers ∧ p'.lock = p.lock ∧ p'.tally = p.tally ∧ p'.rest = p.rest ∧
        p'.progress = p.progress ∧ p'.phase = p.phase ∧ p'.dying = p.dying ∧ p'.passed = p.passed ∧
        p'.tasks = p.tasks) :
      CoordinatorMove p none (p'.abort (.protocol violation))
  | records {r : Recording} {reports : List Report} {rows : Nat} {p' : Pool σ}
      (at_control : p.control = .atReports)
      (sent : p.reports = .generated r.id r.worker r.results :: reports)
      (running : p.phase ≠ .draining) (found : p.outstanding.lookup r.id = some rows)
      (counted : r.results.length = p.tally.length)
      (filled : (p.recorded reports r rows).refill = .ok p') :
      CoordinatorMove p (some r) p'.awaitBatches
  | cannotRefill {r : Recording} {reports : List Report} {rows : Nat} {violation : Violation}
      (at_control : p.control = .atReports)
      (sent : p.reports = .generated r.id r.worker r.results :: reports)
      (counted : r.results.length = p.tally.length)
      (refused : (p.recorded reports r rows).refusal? = some violation) :
      CoordinatorMove p (some r) ((p.recorded reports r rows).abort (.protocol violation))
  | notes {worker : Nat} {reports : List Report} (at_control : p.control = .atReports)
      (sent : p.reports = .dying worker :: reports) (draining : p.phase = .draining) :
      CoordinatorMove p none ({ p with reports }.noteDying worker)
  | findsClosed (at_control : p.control = .atReports) (sent : p.reports = [])
      (exited : p.allExited = true) :
      CoordinatorMove p none (p.abort (.protocol
        (if p.phase = .draining then .reportsClosedBeforeFinish else .reportsClosedEarly)))
  | fallsAsleep (at_control : p.control = .atReports) (sent : p.reports = [])
      (live : p.allExited = false) : CoordinatorMove p none { p with control := .asleep }
  | wakes (at_control : p.control = .asleep) : CoordinatorMove p none { p with control := .atFailures }
  | checks (at_control : p.control = .atReports) (sent : p.reports = [])
      (live : p.allExited = false) :
      CoordinatorMove p none { p with control := .checking p.stopped }
  | findsNoFailure {stopped : List Nat} (at_control : p.control = .checking stopped)
      (sent : p.failures = []) :
      CoordinatorMove p none { p with control := .checkingReports stopped }
  | missesReport {worker : Nat} {stopped : List Nat}
      (at_control : p.control = .checkingReports (worker :: stopped)) (sent : p.reports = []) :
      CoordinatorMove p none (p.abort (.protocol (.stoppedSilently worker)))
  | goesOn {stopped : List Nat} (at_control : p.control = .checkingReports stopped) :
      CoordinatorMove p none { p with control := .atFailures }
  | waitsForEnds (at_control : p.control = .closing 0) (missing : p.dying.length < p.workers.length) :
      CoordinatorMove p none { p with control := .atFailures }
  | hasAllEnds (at_control : p.control = .closing 0) (all : p.workers.length ≤ p.dying.length) :
      CoordinatorMove p none { p with tasksOpen := false, control := .joining }
  | cannotSend {left : Nat} {violation : Violation} (at_control : p.control = .closing (left + 1))
      (refused : p.refusal? = some violation) : CoordinatorMove p none (p.abort (.protocol violation))
  | sendsDone {left : Nat} (at_control : p.control = .closing (left + 1)) :
      CoordinatorMove p none { p with tasks := p.tasks ++ [.done], control := .closing left }
  | joinsBadly {worker : Nat} {exit : WorkerExit} (at_control : p.control = .joining)
      (exited : p.allExited = true) (bad : p.abnormalExit? = some (worker, exit)) :
      CoordinatorMove p none { p.enter .terminated with
        control := .returned (.error (.protocol (.endedWith worker exit))) }
  | joins (at_control : p.control = .joining) (exited : p.allExited = true)
      (good : p.abnormalExit? = none) :
      CoordinatorMove p none { p.enter .terminated with control := .returned (.ok ()) }
  | aborts {error : RunError} (at_control : p.control = .aborting error) (exited : p.allExited = true) :
      CoordinatorMove p none
        { p.enter .terminated with outstanding := [], control := .returned (.error error) }

theorem tally_record_eq_ok {t t' : Tally} {results : List Accumulator} (h : t.record results = .ok t') :
    results.length = t.length ∧ t' = List.zipWith (· :: ·) results t := by
  rw [Tally.record] at h
  split at h
  · rename_i hlen
    cases h
    exact ⟨hlen, rfl⟩
  · cases h

theorem tally_record_eq_error {t : Tally} {results : List Accumulator} {violation : Violation}
    (h : t.record results = .error violation) :
    results.length ≠ t.length ∧ violation = .resultCount t.length results.length := by
  rw [Tally.record] at h
  split at h
  · cases h
  · rename_i hlen
    cases h
    exact ⟨hlen, rfl⟩

/-- The next batch is not handed out only when no task can be sent. -/
theorem refill_eq_error {p : Pool σ} {violation : Violation} (h : p.refill = .error violation) :
    p.refusal? = some violation := by
  rw [refill] at h
  split at h
  · rw [tryDispatch] at h
    split at h
    · rename_i violation' hrefused
      cases h
      exact hrefused
    · cases h
  · cases h

/-- What becomes of a report that is read. -/
theorem read_move {p : Pool σ} {r : Report} {reports : List Report} (hc : p.control = .atReports)
    (hr : p.reports = r :: reports) :
    CoordinatorMove p (p.recording? .coordinator) ({ p with reports }.read r) := by
  cases r with
  -- the end of a worker: expected in a pool that is drained, and only there
  | dying worker =>
    have hnone : p.recording? .coordinator = none := by simp only [recording?, hc, hr]
    rw [hnone, read]
    split
    · rename_i hdrain
      exact .notes hc hr hdrain
    · rename_i hdrain
      exact .rejects hc hr (.early hdrain) (by simp)
  -- a batch: it must be outstanding and bring as many accumulators as there are columns
  | generated id worker results =>
    rw [read]
    split
    · rename_i hdrain
      have hdrain : p.phase = .draining := hdrain
      have hnone : p.recording? .coordinator = none := by simp [recording?, hc, hr, hdrain]
      rw [hnone]
      exact .rejects hc hr (.whileDraining hdrain) (by simp)
    · rename_i hdrain
      have hdrain : p.phase ≠ .draining := hdrain
      rw [receive]
      cases hl : p.outstanding.lookup id with
      | none =>
        have hnone : p.recording? .coordinator = none := by simp [recording?, hc, hr, hl]
        rw [hnone]
        exact .rejects hc hr (.notOutstanding hl) (by simp)
      | some rows =>
        dsimp only
        cases ht : p.tally.record results with
        | error violation =>
          obtain ⟨hlen, rfl⟩ := tally_record_eq_error ht
          have hnone : p.recording? .coordinator = none := by simp [recording?, hc, hr, hlen]
          rw [hnone]
          exact .rejects hc hr (.miscounted hlen) (by simp)
        | ok tally =>
          obtain ⟨hlen, rfl⟩ := tally_record_eq_ok ht
          have hsome : p.recording? .coordinator = some ⟨id, worker, results⟩ := by
            simp [recording?, hc, hr, hdrain, hl, hlen]
          rw [hsome]
          dsimp only
          split
          · rename_i violation hrefused
            exact .cannotRefill (r := ⟨id, worker, results⟩) hc hr hlen (refill_eq_error hrefused)
          · rename_i p' hfilled
            exact .records (r := ⟨id, worker, results⟩) hc hr hdrain hl hlen hfilled

/-- Every move of the coordinator is one of the cases. -/
theorem moveCoordinator_cases {p q : Pool σ} (h : p.moveCoordinator = some q) :
    CoordinatorMove p (p.recording? .coordinator) q := by
  rw [moveCoordinator] at h
  cases hc : p.control with
  | atReports =>
    cases hr : p.reports with
    | cons r reports =>
      -- the pool that is read in mentions its control too, so both sides are rewritten
      have hread : some ({ p with reports }.read r) = some q := by
        rw [← h, hc]
        dsimp only
        rw [hr]
      rw [← Option.some.inj hread]
      exact read_move hc hr
    | nil =>
      -- nothing was reported: the end of all reports, or a wait
      have hnone : p.recording? .coordinator = none := by simp only [recording?, hc, hr]
      rw [hc] at h
      rw [hnone]
      dsimp only at h
      split at h
      · rename_i hr'
        rw [hr] at hr'
        cases hr'
      · split at h
        · rename_i hall
          cases h
          exact .findsClosed hc hr hall
        · rename_i hall
          cases h
          exact .fallsAsleep hc hr (by simpa using hall)
  | atFailures =>
    have hnone : p.recording? .coordinator = none := by simp only [recording?, hc]
    rw [hc] at h
    rw [hnone]
    dsimp only at h
    split at h
    · rename_i hf
      cases h
      exact .readsFailure (.inl hc) hf
    · rename_i hf
      cases h
      exact .seesNoFailure hc hf
  | asleep =>
    have hnone : p.recording? .coordinator = none := by simp only [recording?, hc]
    rw [hc] at h
    rw [hnone]
    dsimp only at h
    split at h
    · cases h
      exact .wakes hc
    · cases h
  | checking stopped =>
    have hnone : p.recording? .coordinator = none := by simp only [recording?, hc]
    rw [hc] at h
    rw [hnone]
    dsimp only at h
    split at h
    · rename_i hf
      cases h
      exact .readsFailure (.inr ⟨_, hc⟩) hf
    · rename_i hf
      cases h
      exact .findsNoFailure hc hf
  | checkingReports stopped =>
    have hnone : p.recording? .coordinator = none := by simp only [recording?, hc]
    rw [hc] at h
    rw [hnone]
    cases stopped with
    | nil =>
      cases h
      exact .goesOn hc
    | cons worker stopped =>
      dsimp only at h
      split at h
      · rename_i hr
        cases h
        exact .missesReport hc (List.isEmpty_iff.mp hr)
      · cases h
        exact .goesOn hc
  | closing left =>
    have hnone : p.recording? .coordinator = none := by simp only [recording?, hc]
    rw [hc] at h
    rw [hnone]
    cases left with
    | zero =>
      dsimp only at h
      split at h
      · rename_i hlt
        cases h
        exact .waitsForEnds hc hlt
      · rename_i hle
        cases h
        exact .hasAllEnds hc (Nat.le_of_not_lt hle)
    | succ left =>
      dsimp only at h
      split at h
      · rename_i violation hrefused
        cases h
        exact .cannotSend hc hrefused
      · cases h
        exact .sendsDone hc
  | joining =>
    have hnone : p.recording? .coordinator = none := by simp only [recording?, hc]
    rw [hc] at h
    rw [hnone]
    dsimp only at h
    split at h
    · rename_i hall
      split at h
      · rename_i hbad
        cases h
        exact .joinsBadly hc hall hbad
      · rename_i hgood
        cases h
        exact .joins hc hall hgood
    · cases h
  | aborting error =>
    have hnone : p.recording? .coordinator = none := by simp only [recording?, hc]
    rw [hc] at h
    rw [hnone]
    dsimp only at h
    split at h
    · rename_i hall
      cases h
      exact .aborts hc hall
    · cases h
  | returned outcome =>
    rw [hc] at h
    cases h

/-- Every move of the clock is one of the cases. -/
theorem moveClock_cases {p q : Pool σ} (h : p.moveClock = some q) : CoordinatorMove p none q := by
  rw [moveClock] at h
  split at h
  · rename_i hc
    split at h
    · rename_i hidle
      cases h
      exact .checks hc (List.isEmpty_iff.mp hidle.1) (by simpa using hidle.2)
    · cases h
  · rename_i hc
    cases h
    exact .wakes hc
  · cases h

/-! ## Histories -/

/-- The moves of a run so far, the latest first, each with the pool that it was made in. -/
abbrev History (σ : Type) := List (Pool σ × Move)

/-- A pool comes out of another one by the moves of a history. -/
inductive Reaches (setup : Setup σ) (start : Pool σ) : History σ → Pool σ → Prop
  | start : Reaches setup start [] start
  | move {h : History σ} {p q : Pool σ} {m : Move} :
      Reaches setup start h p → p.step setup m = some q → Reaches setup start ((p, m) :: h) q

/-- The batches recorded in a history, the latest first. -/
def recordings (h : History σ) : List Recording := h.filterMap fun (p, m) => p.recording? m

/-- The workers whose guarded work stopped in a history and what stopped it, the latest first. -/
def stops (setup : Setup σ) (h : History σ) : List (Nat × Stop) :=
  h.filterMap fun (p, m) => p.stop? setup m

theorem recordings_cons {h : History σ} {p : Pool σ} {m : Move} :
    recordings ((p, m) :: h) = (p.recording? m).toList ++ recordings h := by
  cases hr : p.recording? m <;> simp [recordings, hr]

theorem stops_cons {setup : Setup σ} {h : History σ} {p : Pool σ} {m : Move} :
    stops setup ((p, m) :: h) = (p.stop? setup m).toList ++ stops setup h := by
  cases hs : p.stop? setup m <;> simp [stops, hs]

/-- What holds at the start, and is kept by every move of a worker and of the coordinator or its
clock, holds of every history and the pool it leads to. -/
theorem Reaches.along {setup : Setup σ} {start : Pool σ} {I : History σ → Pool σ → Prop}
    (hstart : I [] start)
    (hworker : ∀ {h p q id seen w}, Reaches setup start h p → I h p → p.workers[id]? = some w →
      WorkerMove setup p id w (w.stop? setup id seen) q → I ((p, .worker id seen) :: h) q)
    (hcoordinator : ∀ {h p q m}, Reaches setup start h p → I h p → m = .coordinator ∨ m = .clock →
      CoordinatorMove p (p.recording? m) q → I ((p, m) :: h) q)
    {h : History σ} {p : Pool σ} (hp : Reaches setup start h p) : I h p := by
  induction hp with
  | start => exact hstart
  | @move h p q m hp hstep ih =>
    cases m with
    | worker id seen =>
      -- only a worker that is there moves
      rw [step, Option.bind_eq_some_iff] at hstep
      obtain ⟨w, hw, hq⟩ := hstep
      exact hworker hp ih hw (moveWorker_cases hq)
    | coordinator => exact hcoordinator hp ih (.inl rfl) (moveCoordinator_cases hstep)
    | clock => exact hcoordinator hp ih (.inr rfl) (moveClock_cases hstep)

/-- An invariant of the pool, of what was recorded and of what stopped holds in every history when
it holds at the start and every move of a worker and of the coordinator keeps it. -/
theorem Reaches.invariant {setup : Setup σ} {start : Pool σ}
    {I : List Recording → List (Nat × Stop) → Pool σ → Prop} (hstart : I [] [] start)
    (hworker : ∀ {h p q id w s}, Reaches setup start h p → I (recordings h) (stops setup h) p →
      p.workers[id]? = some w → WorkerMove setup p id w s q →
      I (recordings h) ((s.map (id, ·)).toList ++ stops setup h) q)
    (hcoordinator : ∀ {h p q r}, Reaches setup start h p → I (recordings h) (stops setup h) p →
      CoordinatorMove p r q → I (r.toList ++ recordings h) (stops setup h) q)
    {h : History σ} {p : Pool σ} (hp : Reaches setup start h p) :
    I (recordings h) (stops setup h) p := by
  refine hp.along (I := fun h p => I (recordings h) (stops setup h) p) hstart ?_ ?_
  · -- a worker records nothing
    intro h p q id seen w hp hi hw hm
    have hstop : p.stop? setup (.worker id seen) = (w.stop? setup id seen).map (id, ·) := by
      rw [stop?, hw]
      rfl
    rw [recordings_cons, stops_cons, hstop]
    exact hworker hp hi hw hm
  · -- and neither the coordinator nor the clock stops a worker
    rintro h p q m hp hi hm hmove
    have hstop : p.stop? setup m = none := by
      rcases hm with rfl | rfl
      · rfl
      · rfl
    rw [recordings_cons, stops_cons, hstop]
    exact hcoordinator hp hi hmove

theorem Reaches.trans {setup : Setup σ} {start p q : Pool σ} {h h' : History σ}
    (hp : Reaches setup start h p) (hq : Reaches setup p h' q) : Reaches setup start (h' ++ h) q := by
  induction hq with
  | start => exact hp
  | move _ hstep ih => exact ih.move hstep

/-- A turn of which no use can be made leaves the pool and its history as they are. -/
theorem Reaches.advance {setup : Setup σ} {start p : Pool σ} {h : History σ}
    (hp : Reaches setup start h p) (m : Move) : ∃ h', Reaches setup start h' (p.advance setup m) := by
  rw [Pool.advance]
  cases hstep : p.step setup m with
  | none => exact ⟨h, hp⟩
  | some q => exact ⟨_, hp.move hstep⟩

/-- A pool that moves as a schedule has it comes out of some history. -/
theorem Reaches.run {setup : Setup σ} {start p : Pool σ} {h : History σ}
    (hp : Reaches setup start h p) (schedule : Nat → Move) (moves time : Nat) :
    ∃ h', Reaches setup start h' (p.run setup schedule moves time) := by
  induction moves generalizing h p time with
  | zero => exact ⟨h, hp⟩
  | succ moves ih =>
    rw [Pool.run]
    split
    · exact ⟨h, hp⟩
    · obtain ⟨h', hq⟩ := hp.advance (schedule time)
      exact ih hq (time + 1)

end SeededRows.Pool
