/-
  SeededRows.Proofs.Pool.Termination

  A pool comes to its end when nobody is kept from moving for ever. What is left to do is counted
  such that every move uses some of it up, except for those with which the coordinator goes round
  in its loops. These bring it closer to what there is to look at, if there is something. And as
  somebody can move in every state, a schedule in which everybody gets a turn again and again
  leads to the end.
-/
import SeededRows.Proofs.Pool.Progress

namespace SeededRows.Pool

variable {σ : Type} {setup : Setup σ} {p q : Pool σ} {batches : Batches RowIds.Stream}
  {workers : Nat} {progress : Progress} {h : History σ} {all : List Batch}

/-! ## What is left to do -/

/-- What is left to do for a worker in a stage, until it is gone or waits for another task. A
worker that waits counts for more than what it becomes without a task. -/
def Stage.workLeft : Stage → Nat
  | spawned => 7
  | waiting => 6
  | receiving => 5
  | took none => 4
  | took (some .done) => 5
  | took (some (.batch _)) => 9
  | working _ => 8
  | finishing => 4
  | failing .. => 3
  | cleaning _ | leaving => 1
  | exited .. => 0

/-- What a task adds for the worker that takes it. -/
def Task.workLeft : Task → Nat
  | .batch _ => 5
  | .done => 1

/-- What is left to do for the coordinator of some workers. Until the pool is drained it still has
to tell them all to finish. -/
def Control.workLeft (phase : Phase) (workers : Nat) : Control → Nat
  | returned _ => 0
  | joining | aborting _ => 1
  | closing left => 2 * left + 3
  | _ => if phase = .draining then 2 else 2 * workers + 3

/-- What is left to do about the messages that nobody has taken or read. -/
def messagesLeft (p : Pool σ) : Nat :=
  (p.tasks.map Task.workLeft).sum + p.reports.length + p.failures.length

/-- What is left to do in a pool. -/
def workLeft (p : Pool σ) : Nat :=
  5 * p.rest.rows.remaining + p.messagesLeft + (p.workers.map fun w => w.stage.workLeft).sum +
    p.control.workLeft p.phase p.workers.length

theorem sum_map_set {ws : List (Worker σ)} {id : Nat} {w : Worker σ} (hw : ws[id]? = some w)
    (v : Worker σ) (f : Worker σ → Nat) :
    ((ws.set id v).map f).sum + f w = (ws.map f).sum + f v := by
  induction ws generalizing id with
  | nil => cases hw
  | cons u ws ih =>
    cases id with
    | zero =>
      cases hw
      simp only [List.set_cons_zero, List.map_cons, List.sum_cons]
      omega
    | succ id =>
      have hrest := ih (List.getElem?_cons_succ ▸ hw)
      simp only [List.set_cons_succ, List.map_cons, List.sum_cons]
      omega

/-! ### Moves of workers -/

/-- What a worker uses up is its own or stands for a message. -/
theorem WorkerMove.workLeft_lt {id : Nat} {w : Worker σ} {s : Option Stop}
    (hw : p.workers[id]? = some w) (hm : WorkerMove setup p id w s q)
    (hless : ∀ {v}, q.workers[id]? = some v →
      v.stage.workLeft + q.messagesLeft < w.stage.workLeft + p.messagesLeft) :
    q.workLeft < p.workLeft := by
  have hs := hm.sameCoordinator
  obtain ⟨v, hset⟩ := hm.workers
  have hsum := sum_map_set hw v fun w => w.stage.workLeft
  have hv : q.workers[id]? = some v := by
    rw [hset]
    exact getElem?_set_of_some hw v
  have hlt := hless hv
  rw [Pool.workLeft, Pool.workLeft, hs.rest, hs.control, hs.phase, hs.length, hset]
  omega

/-- Every move of a worker uses something up. -/
theorem WorkerMove.workLeft {n id : Nat} {w : Worker σ} {s : Option Stop}
    (hw : p.workers[id]? = some w) (hm : WorkerMove setup p id w s q) (hequipped : p.Equipped n) :
    q.workLeft < p.workLeft := by
  refine hm.workLeft_lt hw ?_
  intro v hv
  cases hm with
  -- a worker that works has an engine
  | idles at_stage with_engine =>
    obtain ⟨engine, he, -⟩ := hequipped.serving hw (by rw [at_stage]; trivial)
    rw [with_engine] at he
    cases he
  -- a task goes from the queue to the worker
  | @takes task tasks at_stage queued =>
    cases (getElem?_set_of_some hw _).symm.trans hv
    rw [at_stage, messagesLeft, messagesLeft, queued, List.map_cons, List.sum_cons]
    cases task with
    | batch b =>
      show 9 + ((tasks.map Task.workLeft).sum + p.reports.length + p.failures.length) <
        5 + (5 + (tasks.map Task.workLeft).sum + p.reports.length + p.failures.length)
      omega
    | done =>
      show 5 + ((tasks.map Task.workLeft).sum + p.reports.length + p.failures.length) <
        5 + (1 + (tasks.map Task.workLeft).sum + p.reports.length + p.failures.length)
      omega
  -- a report or a failure is sent
  | reports at_stage | finishes at_stage | tells at_stage =>
    cases (getElem?_set_of_some hw _).symm.trans hv
    rw [at_stage]
    simp only [messagesLeft, setWorker, send, sendFailure, List.length_append,
      List.length_singleton, Stage.workLeft]
    omega
  -- no message changes hands
  | @isCancelled task at_stage =>
    cases (getElem?_set_of_some hw _).symm.trans hv
    rw [at_stage]
    refine Nat.add_lt_add_right ?_ _
    rcases task with _ | _ | _ <;> simp [Stage.workLeft]
  | begins at_stage | cannotBegin at_stage | locks at_stage | findsClosed at_stage
  | accepts at_stage | windsUp at_stage | missesEnd at_stage | stopsWorking at_stage
  | givesUp at_stage | cannotFinish at_stage | cleansUp at_stage | leaves at_stage =>
    cases (getElem?_set_of_some hw _).symm.trans hv
    rw [at_stage]
    refine Nat.add_lt_add_right ?_ _
    simp [Stage.workLeft]

/-! ### Moves of the coordinator -/

/-- The coordinator goes on to another place in its loops, and changes nothing else. -/
def GoesRound (p q : Pool σ) : Prop :=
  p.control.Polls ∧ ∃ control : Control, control.Polls ∧ q = { p with control }

/-- How far the coordinator is from looking at what is there, if something is. -/
def distance (p : Pool σ) : Nat :=
  match p.control with
  | .atFailures => if p.failures.isEmpty then 1 else 0
  | .atReports => if p.reports.isEmpty && !p.allExited then 3 else 0
  | .asleep | .checkingReports _ => 2
  | .checking _ => if p.failures.isEmpty then 3 else 0
  | _ => 0

theorem Control.Polls.workLeft_eq {c : Control} (h : c.Polls) (phase : Phase) (n : Nat) :
    c.workLeft phase n = if phase = .draining then 2 else 2 * n + 3 := by
  cases c with
  | atFailures | atReports | asleep | checking | checkingReports => rfl
  | closing | joining | aborting | returned => exact h.elim

theorem Control.Polls.two_le_workLeft {c : Control} (h : c.Polls) (phase : Phase) (n : Nat) :
    2 ≤ c.workLeft phase n := by
  rw [h.workLeft_eq]
  split
  · exact Nat.le_refl 2
  · omega

/-- Giving a run up leaves the messages aside. -/
theorem workLeft_abort {p' : Pool σ} {error : RunError} (hrest : p'.rest = p.rest)
    (htasks : p'.tasks = p.tasks) (hworkers : p'.workers = p.workers)
    (hcontrol : 2 ≤ p.control.workLeft p.phase p.workers.length) :
    (p'.abort error).workLeft < p.workLeft := by
  have hmessages : (p'.abort error).messagesLeft ≤ p.messagesLeft := by
    rw [messagesLeft, messagesLeft, abort, htasks]
    exact Nat.add_le_add (Nat.add_le_add_left (Nat.zero_le _) _) (Nat.zero_le _)
  have hone : (p'.abort error).control.workLeft (p'.abort error).phase
      (p'.abort error).workers.length = 1 := rfl
  have hsame : (p'.abort error).rest = p.rest ∧ (p'.abort error).workers = p.workers :=
    ⟨hrest, hworkers⟩
  rw [workLeft, workLeft, hone, hsame.1, hsame.2]
  omega

/-- A batch that is handed out becomes a task. -/
theorem refill_workLeft {p' : Pool σ} (h : p.refill = .ok p') :
    5 * p'.rest.rows.remaining + (p'.tasks.map Task.workLeft).sum ≤
      5 * p.rest.rows.remaining + (p.tasks.map Task.workLeft).sum := by
  rcases refill_cases h with ⟨-, rfl⟩ | ⟨b, rest, hnext, rfl⟩
  · exact Nat.le_refl _
  · have hrows := Batches.remaining_of_next? hnext
    simp only [dispatch, List.map_append, List.map_singleton, List.sum_append, List.sum_singleton,
      Task.workLeft]
    omega

/-- Recording a batch uses up its report. -/
theorem workLeft_records {r : Recording} {reports : List Report} {rows : Nat} {p' : Pool σ}
    (hpolls : p.control.Polls)
    (hsent : p.reports = .generated r.id r.worker r.results :: reports)
    (hrunning : p.phase ≠ .draining) (hfilled : (p.recorded reports r rows).refill = .ok p') :
    p'.awaitBatches.workLeft < p.workLeft := by
  have hrecorded := recorded_refill hfilled
  have hrest : p'.awaitBatches.rest = p'.rest ∧ p'.awaitBatches.tasks = p'.tasks := by
    rcases p'.awaitBatches_cases with ⟨-, hq⟩ | ⟨-, hq⟩
    · rw [hq]
      exact ⟨rfl, rfl⟩
    · rw [hq]
      exact ⟨rfl, rfl⟩
  have hbatches : 5 * p'.rest.rows.remaining + (p'.tasks.map Task.workLeft).sum ≤
      5 * p.rest.rows.remaining + (p.tasks.map Task.workLeft).sum := by
    have hle := refill_workLeft hfilled
    exact hle
  -- at most the words to finish are left to be sent, and so they were before
  have hcontrol : p'.awaitBatches.control.workLeft p'.awaitBatches.phase p.workers.length ≤
      p.control.workLeft p.phase p.workers.length := by
    rw [hpolls.workLeft_eq, if_neg hrunning]
    rcases hrecorded.control with hq | hq
    · rw [hq]
      exact Nat.le_refl _
    · have hround : Control.atFailures.Polls := trivial
      rw [hq, hround.workLeft_eq]
      split <;> omega
  simp only [workLeft, messagesLeft, hrest.1, hrest.2, hrecorded.reports, hrecorded.failures,
    hrecorded.workers, hsent, List.length_cons]
  omega

/-- Taking the word of a worker that it has ended uses up its report. -/
theorem workLeft_notes {worker : Nat} {reports : List Report} (hpolls : p.control.Polls)
    (hsent : p.reports = .dying worker :: reports) (hdraining : p.phase = .draining) :
    (({ p with reports } : Pool σ).noteDying worker).workLeft < p.workLeft := by
  have hnoted := noteDying_noted { p with reports } worker
  have hbefore : p.control.workLeft p.phase p.workers.length = 2 := by
    rw [hpolls.workLeft_eq, if_pos hdraining]
  -- the coordinator goes on waiting for ends, or has them all
  have hafter : (({ p with reports } : Pool σ).noteDying worker).control.workLeft p.phase
      p.workers.length ≤ 2 := by
    rcases hnoted.control with hq | hq
    · have hround : Control.atFailures.Polls := trivial
      rw [hq, hround.workLeft_eq, if_pos hdraining]
    · rw [hq]
      exact Nat.le_succ 1
  simp only [workLeft, messagesLeft, hnoted.rest, hnoted.tasks, hnoted.reports, hnoted.failures,
    hnoted.workers, hnoted.phase, hsent, List.length_cons]
  omega

/-- Every move of the coordinator uses something up, unless it goes round; and then it gets closer
to what there is to look at. -/
theorem CoordinatorMove.workLeft {r : Option Recording} (hm : CoordinatorMove p r q)
    (hsteered : p.Steered)
    (hexpected : p.control = .atReports → ∀ {r}, r ∈ p.reports → ∀ violation,
      ¬ Unexpected p r violation) :
    q.workLeft < p.workLeft ∨
      (GoesRound p q ∧ (p.hasNews = true → q.distance < p.distance)) := by
  cases hm with
  -- gives the run up
  | readsFailure at_control sent =>
    have hpolls : p.control.Polls := by
      rcases at_control with hc | ⟨stopped, hc⟩ <;> rw [hc] <;> trivial
    exact .inl (workLeft_abort rfl rfl rfl (hpolls.two_le_workLeft _ _))
  | rejects at_control sent wrong =>
    exact absurd wrong (hexpected at_control (sent ▸ List.mem_cons_self) _)
  | cannotRefill at_control | findsClosed at_control | missesReport at_control =>
    have hpolls : p.control.Polls := by rw [at_control]; trivial
    exact .inl (workLeft_abort rfl rfl rfl (hpolls.two_le_workLeft _ _))
  | cannotSend at_control =>
    refine .inl (workLeft_abort rfl rfl rfl ?_)
    rw [at_control, Control.workLeft]
    omega
  -- takes a report
  | records at_control sent running _ _ filled =>
    exact .inl (workLeft_records (by rw [at_control]; trivial) sent running filled)
  | notes at_control sent draining =>
    exact .inl (workLeft_notes (by rw [at_control]; trivial) sent draining)
  -- goes round
  | seesNoFailure at_control sent =>
    refine .inr ⟨⟨by rw [at_control]; trivial, .atReports, trivial, rfl⟩, ?_⟩
    intro hnews
    rw [distance, distance, at_control, sent]
    show (if p.reports.isEmpty && !p.allExited then 3 else 0) < 1
    have hsome : (p.reports.isEmpty && !p.allExited) = false := by
      simpa [hasNews, sent, or_iff_not_imp_left] using hnews
    rw [hsome]
    exact Nat.one_pos
  | fallsAsleep at_control sent live =>
    refine .inr ⟨⟨by rw [at_control]; trivial, .asleep, trivial, rfl⟩, ?_⟩
    intro _
    rw [distance, distance, at_control, sent, live]
    exact Nat.lt_succ_self 2
  | wakes at_control =>
    refine .inr ⟨⟨by rw [at_control]; trivial, .atFailures, trivial, rfl⟩, ?_⟩
    intro _
    rw [distance, distance, at_control]
    show (if p.failures.isEmpty then 1 else 0) < 2
    split <;> decide
  | checks at_control sent live =>
    refine .inr ⟨⟨by rw [at_control]; trivial, .checking p.stopped, trivial, rfl⟩, ?_⟩
    intro hnews
    rw [distance, distance, at_control, sent, live]
    show (if p.failures.isEmpty then 3 else 0) < 3
    have hsome : p.failures.isEmpty = false := by
      simpa [hasNews, sent, live] using hnews
    rw [hsome]
    decide
  | @findsNoFailure stopped at_control sent =>
    refine .inr ⟨⟨by rw [at_control]; trivial, .checkingReports stopped, trivial, rfl⟩, ?_⟩
    intro _
    rw [distance, distance, at_control, sent]
    exact Nat.lt_succ_self 2
  | goesOn at_control =>
    refine .inr ⟨⟨by rw [at_control]; trivial, .atFailures, trivial, rfl⟩, ?_⟩
    intro _
    rw [distance, distance, at_control]
    show (if p.failures.isEmpty then 1 else 0) < 2
    split <;> decide
  -- sends the words to finish, and has sent them all
  | waitsForEnds at_control =>
    have hdraining := hsteered.ending (.inr ⟨_, at_control⟩)
    refine .inl (Nat.add_lt_add_left ?_ _)
    rw [at_control]
    show (if p.phase = .draining then 2 else _) < 3
    rw [if_pos hdraining]
    exact Nat.lt_succ_self 2
  | hasAllEnds at_control =>
    refine .inl (Nat.add_lt_add_left ?_ _)
    rw [at_control]
    exact (by decide : 1 < 3)
  | @sendsDone left at_control =>
    left
    rw [Pool.workLeft, Pool.workLeft, messagesLeft, messagesLeft, at_control]
    simp only [List.map_append, List.map_singleton, List.sum_append, List.sum_singleton,
      Task.workLeft, Control.workLeft]
    omega
  -- returns
  | joinsBadly at_control | joins at_control | aborts at_control =>
    refine .inl (Nat.add_lt_add_left ?_ _)
    rw [at_control]
    exact Nat.one_pos

/-! ## Turns -/

/-- The coordinator and every worker get their turns, again and again. -/
structure Fair (workers : Nat) (schedule : Nat → Move) : Prop where
  coordinator : ∀ time, ∃ later, time ≤ later ∧ schedule later = .coordinator
  worker : ∀ id < workers, ∀ time, ∃ later, time ≤ later ∧ schedule later = .worker id none

/-- In rounds everybody gets a turn. -/
theorem rounds_fair (workers : Nat) : Fair workers (rounds workers) := by
  have hturn (time turn : Nat) (hlt : turn < workers + 2) :
      time ≤ time * (workers + 2) + turn ∧ (time * (workers + 2) + turn) % (workers + 2) = turn := by
    refine ⟨?_, ?_⟩
    · exact Nat.le_trans (Nat.le_mul_of_pos_right _ (by omega)) (Nat.le_add_right _ _)
    · rw [Nat.mul_comm, Nat.mul_add_mod, Nat.mod_eq_of_lt hlt]
  constructor
  · intro time
    obtain ⟨hle, hmod⟩ := hturn time workers (by omega)
    exact ⟨_, hle, by rw [rounds, hmod, if_neg (Nat.lt_irrefl _)]⟩
  · intro id hid time
    obtain ⟨hle, hmod⟩ := hturn time id (by omega)
    exact ⟨_, hle, by rw [rounds, hmod, if_pos hid]⟩

/-! ### Runs of a schedule -/

variable {schedule : Nat → Move}

theorem run_returned (hreturned : p.outcome? ≠ none) (moves time : Nat) :
    p.run setup schedule moves time = p := by
  cases moves with
  | zero => rfl
  | succ moves => rw [run, if_pos (Option.isSome_iff_ne_none.mpr hreturned)]

theorem run_succ (hrunning : p.outcome? = none) (moves time : Nat) :
    p.run setup schedule (moves + 1) time =
      (p.advance setup (schedule time)).run setup schedule moves (time + 1) := by
  rw [run, hrunning]
  rfl

/-- A run goes on where it was left. -/
theorem run_add (p : Pool σ) (moves more time : Nat) :
    p.run setup schedule (moves + more) time =
      (p.run setup schedule moves time).run setup schedule more (time + moves) := by
  induction moves generalizing p time with
  | zero => rw [Nat.zero_add]; rfl
  | succ moves ih =>
    cases hrunning : p.outcome? with
    | none => rw [Nat.succ_add, run_succ hrunning, run_succ hrunning, ih, Nat.succ_add_eq_add_succ]
    | some outcome =>
      have hreturned : p.outcome? ≠ none := by rw [hrunning]; simp
      rw [run_returned hreturned, run_returned hreturned, run_returned hreturned]

/-- What makes a move lead to an aim, and is kept by all other moves that do not lead to it
themselves, leads to it once the move has its turn. -/
theorem run_until {P Q : Pool σ → Prop} {m : Move} (hrunning : ∀ {p}, P p → p.outcome? = none)
    (hkeeps : ∀ {p}, P p → ∀ m', P (p.advance setup m') ∨ Q (p.advance setup m'))
    (hleads : ∀ {p}, P p → Q (p.advance setup m)) {time later : Nat} (hle : time ≤ later)
    (hturn : schedule later = m) (hp : P p) : ∃ moves, Q (p.run setup schedule moves time) := by
  obtain ⟨wait, rfl⟩ := Nat.exists_eq_add_of_le hle
  clear hle
  induction wait generalizing p time with
  | zero =>
    have hnow : schedule time = m := hturn
    refine ⟨1, ?_⟩
    rw [run_succ (hrunning hp), hnow]
    exact hleads hp
  | succ wait ih =>
    rcases hkeeps hp (schedule time) with hkept | hled
    · rw [← Nat.succ_add_eq_add_succ] at hturn
      obtain ⟨moves, hq⟩ := ih hkept hturn
      exact ⟨moves + 1, by rw [run_succ (hrunning hp)]; exact hq⟩
    · exact ⟨1, by rw [run_succ (hrunning hp)]; exact hled⟩

/-! ### Going round -/

theorem GoesRound.workLeft_eq (h : GoesRound p q) : q.workLeft = p.workLeft := by
  obtain ⟨hpolls, control, hcontrol, rfl⟩ := h
  rw [workLeft, workLeft, hpolls.workLeft_eq]
  show _ + control.workLeft p.phase p.workers.length = _
  rw [hcontrol.workLeft_eq]
  rfl

theorem GoesRound.running (h : GoesRound p q) : q.outcome? = none := by
  obtain ⟨-, control, hcontrol, rfl⟩ := h
  cases control with
  | returned outcome => exact hcontrol.elim
  | _ => rfl

/-- A coordinator that has what it waits for has it all the way round. -/
theorem GoesRound.ready (h : GoesRound p q) (hready : p.CoordinatorReady) :
    p.hasNews = true ∧ q.CoordinatorReady := by
  obtain ⟨hpolls, control, hcontrol, rfl⟩ := h
  have hnews := (ready_iff_of_polls hpolls).mp hready
  exact ⟨hnews, (ready_iff_of_polls hcontrol).mpr hnews⟩

/-- A worker that can move on can do so while the coordinator goes round. -/
theorem GoesRound.canMoveOn (h : GoesRound p q) {id : Nat}
    (hmove : ∃ w, p.workers[id]? = some w ∧ p.CanMoveOn w) :
    ∃ w, q.workers[id]? = some w ∧ q.CanMoveOn w := by
  obtain ⟨-, control, -, rfl⟩ := h
  exact hmove

/-! ### The end of a run -/

/-- A move uses something up, unless the coordinator goes round. -/
theorem Reaches.spends (hp : Reaches setup (ofBatches setup batches workers progress) h p)
    (hload : Workload batches workers progress all) {m : Move} (hstep : p.step setup m = some q) :
    q.workLeft < p.workLeft ∨
      (GoesRound p q ∧ (p.hasNews = true → q.distance < p.distance)) := by
  have hexpected (hc : p.control = .atReports) {r : Report} (hr : r ∈ p.reports)
      (violation : Violation) : ¬ Unexpected p r violation := hp.expected hload hc hr violation
  cases m with
  | worker id seen =>
    rw [step, Option.bind_eq_some_iff] at hstep
    obtain ⟨w, hw, hq⟩ := hstep
    exact .inl ((moveWorker_cases hq).workLeft hw hp.equipped)
  | coordinator => exact (moveCoordinator_cases hstep).workLeft hp.steered hexpected
  | clock => exact (moveClock_cases hstep).workLeft hp.steered hexpected

/-- A turn changes nothing, or it uses something up, or the coordinator goes round. -/
theorem Reaches.turn (hp : Reaches setup (ofBatches setup batches workers progress) h p)
    (hload : Workload batches workers progress all) (m : Move) :
    p.advance setup m = p ∨ (p.advance setup m).workLeft < p.workLeft ∨
      (GoesRound p (p.advance setup m) ∧
        (p.hasNews = true → (p.advance setup m).distance < p.distance)) := by
  rw [Pool.advance]
  cases hstep : p.step setup m with
  | none => exact .inl rfl
  | some q => exact .inr (hp.spends hload hstep)

/-- When a worker can move on, something is used up at its next turn at the latest. -/
theorem Reaches.spends_of_worker
    (hp : Reaches setup (ofBatches setup batches workers progress) h p)
    (hload : Workload batches workers progress all) (hfair : Fair workers schedule)
    (hrunning : p.outcome? = none) {id : Nat}
    (hmove : ∃ w, p.workers[id]? = some w ∧ p.CanMoveOn w) (time : Nat) :
    ∃ moves, (p.run setup schedule moves time).workLeft < p.workLeft := by
  have hid : id < workers := by
    obtain ⟨w, hw, -⟩ := hmove
    exact hp.length_workers ▸ (List.getElem?_eq_some_iff.mp hw).1
  obtain ⟨later, hle, hturn⟩ := hfair.worker id hid time
  refine run_until
    (P := fun q => (∃ h, Reaches setup (ofBatches setup batches workers progress) h q) ∧
      q.outcome? = none ∧ q.workLeft = p.workLeft ∧ ∃ w, q.workers[id]? = some w ∧ q.CanMoveOn w)
    (Q := fun q => q.workLeft < p.workLeft) (fun hP => hP.2.1) ?_ ?_ hle hturn
    ⟨⟨h, hp⟩, hrunning, rfl, hmove⟩
  -- until then it can move on
  · rintro q ⟨⟨h', hq⟩, hrunning', hsame, hmove'⟩ m
    rw [← hsame]
    rcases hq.turn hload m with hidle | hless | ⟨hround, -⟩
    · rw [hidle]
      exact .inl ⟨⟨h', hq⟩, hrunning', rfl, hmove'⟩
    · exact .inr hless
    · obtain ⟨h'', hq'⟩ := hq.advance m
      exact .inl ⟨⟨h'', hq'⟩, hround.running, hround.workLeft_eq, hround.canMoveOn hmove'⟩
  · rintro q ⟨⟨h', hq⟩, -, hsame, w, hw, hmove'⟩
    obtain ⟨q', hstep⟩ := Option.isSome_iff_exists.mp (hmove'.step setup hw)
    rw [Pool.advance, hstep]
    rw [step, hw, Option.bind_some] at hstep
    exact hsame ▸ (moveWorker_cases hstep).workLeft hw hq.equipped

/-- When the coordinator has what it waits for, something is used up after some of its turns. -/
theorem Reaches.spends_of_ready
    (hp : Reaches setup (ofBatches setup batches workers progress) h p)
    (hload : Workload batches workers progress all) (hfair : Fair workers schedule)
    (hready : p.CoordinatorReady) (time : Nat) :
    ∃ moves, (p.run setup schedule moves time).workLeft < p.workLeft := by
  induction hd : p.distance using Nat.strong_induction_on generalizing h p time with
  | _ d ih =>
    subst hd
    obtain ⟨later, hle, hturn⟩ := hfair.coordinator time
    have hround {q : Pool σ} (hgoes : GoesRound p q)
        (hnear : p.hasNews = true → q.distance < p.distance) :
        q.workLeft = p.workLeft ∧ q.CoordinatorReady ∧ q.distance < p.distance := by
      obtain ⟨hnews, hready'⟩ := hgoes.ready hready
      exact ⟨hgoes.workLeft_eq, hready', hnear hnews⟩
    -- at its next turn it uses something up, or it is closer to what it waits for
    have hcloser : ∃ moves, (p.run setup schedule moves time).workLeft < p.workLeft ∨
        ((p.run setup schedule moves time).workLeft = p.workLeft ∧
          (p.run setup schedule moves time).CoordinatorReady ∧
          (p.run setup schedule moves time).distance < p.distance) := by
      refine run_until (P := fun q => q = p)
        (Q := fun q => q.workLeft < p.workLeft ∨
          (q.workLeft = p.workLeft ∧ q.CoordinatorReady ∧ q.distance < p.distance))
        (fun hP => hP ▸ hready.running) ?_ ?_ hle hturn rfl
      · rintro q rfl m
        rcases hp.turn hload m with hidle | hless | ⟨hgoes, hnear⟩
        · exact .inl hidle
        · exact .inr (.inl hless)
        · exact .inr (.inr (hround hgoes hnear))
      · rintro q rfl
        obtain ⟨q', hstep⟩ := Option.isSome_iff_exists.mp (hready.step setup)
        rw [Pool.advance, hstep]
        exact (hp.spends hload hstep).imp_right fun h => hround h.1 h.2
    obtain ⟨moves, hless | ⟨hsame, hready', hnear⟩⟩ := hcloser
    · exact ⟨moves, hless⟩
    · obtain ⟨h', hq⟩ := hp.run schedule moves time
      obtain ⟨more, hmore⟩ := ih _ hnear hq hready' (time + moves) rfl
      refine ⟨moves + more, ?_⟩
      rw [run_add, ← hsame]
      exact hmore

/-- In a fair schedule the coordinator returns after some moves. -/
theorem Reaches.returns (hp : Reaches setup (ofBatches setup batches workers progress) h p)
    (hload : Workload batches workers progress all) (hfair : Fair workers schedule) (time : Nat) :
    ∃ moves, ∀ more, moves ≤ more → (p.run setup schedule more time).outcome? ≠ none := by
  induction hn : p.workLeft using Nat.strong_induction_on generalizing h p time with
  | _ n ih =>
    subst hn
    cases hrunning : p.outcome? with
    | some outcome =>
      have hreturned : p.outcome? ≠ none := by rw [hrunning]; simp
      exact ⟨0, fun more _ => by rw [run_returned hreturned]; exact hreturned⟩
    | none =>
      have hspends : ∃ moves, (p.run setup schedule moves time).workLeft < p.workLeft := by
        rcases hp.not_stuck hload hrunning with hready | ⟨id, hmove⟩
        · exact hp.spends_of_ready hload hfair hready time
        · exact hp.spends_of_worker hload hfair hrunning hmove time
      obtain ⟨moves, hless⟩ := hspends
      obtain ⟨h', hq⟩ := hp.run schedule moves time
      obtain ⟨rest, hrest⟩ := ih _ hless hq (time + moves) rfl
      refine ⟨moves + rest, fun more hmore => ?_⟩
      obtain ⟨extra, rfl⟩ := Nat.exists_eq_add_of_le hmore
      rw [Nat.add_assoc, run_add]
      exact hrest _ (Nat.le_add_right _ _)

end SeededRows.Pool
