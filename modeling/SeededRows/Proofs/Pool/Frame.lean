/-
  SeededRows.Proofs.Pool.Frame

  What the moves of a pool leave alone. A move of a worker changes that worker and the channels
  and nothing that belongs to the coordinator; a move of the coordinator changes no worker. The
  functions that the coordinator's moves are made of are opened here once, case by case.
-/
import Mathlib.Data.List.Basic
import SeededRows.Proofs.Pool.Moves

namespace SeededRows.Pool

variable {σ : Type} {setup : Setup σ} {p q : Pool σ}

/-! ## Moves of workers -/

/-- Two pools that agree in all that belongs to the coordinator. -/
structure SameCoordinator (p q : Pool σ) : Prop where
  rest : q.rest = p.rest
  tasksOpen : q.tasksOpen = p.tasksOpen
  cancel : q.cancel = p.cancel
  outstanding : q.outstanding = p.outstanding
  tally : q.tally = p.tally
  progress : q.progress = p.progress
  phase : q.phase = p.phase
  dying : q.dying = p.dying
  control : q.control = p.control
  length : q.workers.length = p.workers.length

theorem WorkerMove.sameCoordinator {id : Nat} {w : Worker σ} {s : Option Stop}
    (hm : WorkerMove setup p id w s q) : SameCoordinator p q := by
  cases hm <;> exact ⟨rfl, rfl, rfl, rfl, rfl, rfl, rfl, rfl, rfl, List.length_set⟩

/-- A move of a worker replaces this worker and no other. -/
theorem WorkerMove.workers {id : Nat} {w : Worker σ} {s : Option Stop}
    (hm : WorkerMove setup p id w s q) : ∃ w', q.workers = p.workers.set id w' := by
  cases hm <;> exact ⟨_, rfl⟩

/-- The other workers stay as they are. -/
theorem WorkerMove.getElem?_ne {id j : Nat} {w : Worker σ} {s : Option Stop}
    (hm : WorkerMove setup p id w s q) (hj : id ≠ j) : q.workers[j]? = p.workers[j]? := by
  obtain ⟨w', hw'⟩ := hm.workers
  rw [hw', List.getElem?_set_ne hj]

/-- The worker that is put in the place of another one. -/
theorem getElem?_set_of_some {workers : List (Worker σ)} {id : Nat} {w : Worker σ}
    (hw : workers[id]? = some w) (v : Worker σ) : (workers.set id v)[id]? = some v :=
  List.getElem?_set_self (List.getElem?_eq_some_iff.mp hw).1

theorem WorkerMove.moved {id : Nat} {w : Worker σ} {s : Option Stop} (hm : WorkerMove setup p id w s q)
    (hw : p.workers[id]? = some w) : ∃ v, q.workers[id]? = some v := by
  obtain ⟨v, hset⟩ := hm.workers
  rw [hset]
  exact ⟨v, getElem?_set_of_some hw v⟩

/-- A worker of which something holds is found again, in its place, if the move of it keeps that. -/
theorem WorkerMove.persists {P : Worker σ → Prop} {id j : Nat} {w : Worker σ} {s : Option Stop}
    (hm : WorkerMove setup p id w s q) (hw : p.workers[id]? = some w)
    (hmoved : ∀ {v}, q.workers[id]? = some v → P w → P v)
    (h : ∃ v, p.workers[j]? = some v ∧ P v) : ∃ v, q.workers[j]? = some v ∧ P v := by
  obtain ⟨v, hv, hP⟩ := h
  rcases eq_or_ne id j with rfl | hne
  -- the worker itself moved
  · obtain ⟨w', hw'⟩ := hm.moved hw
    rw [hw] at hv
    cases hv
    exact ⟨w', hw', hmoved hw' hP⟩
  · exact ⟨v, (hm.getElem?_ne hne).trans hv, hP⟩

/-- What holds of the worker that moved, and held of all others, holds of all. -/
theorem WorkerMove.forall_workers {P : Nat → Worker σ → Prop} {id : Nat} {w : Worker σ}
    {s : Option Stop} (hm : WorkerMove setup p id w s q)
    (hmoved : ∀ {v}, q.workers[id]? = some v → P id v)
    (hothers : ∀ {j v}, p.workers[j]? = some v → P j v) {j : Nat} {v : Worker σ}
    (hv : q.workers[j]? = some v) : P j v := by
  rcases eq_or_ne id j with rfl | hne
  · exact hmoved hv
  · exact hothers ((hm.getElem?_ne hne).symm.trans hv)

/-- What was reported stays reported until the coordinator reads it. -/
theorem WorkerMove.reports_mono {id : Nat} {w : Worker σ} {s : Option Stop} {r : Report}
    (hm : WorkerMove setup p id w s q) (hr : r ∈ p.reports) : r ∈ q.reports := by
  cases hm with
  | reports | finishes => exact List.mem_append_left _ hr
  | _ => exact hr

/-- What was told stays told until the coordinator reads it. -/
theorem WorkerMove.failures_mono {id : Nat} {w : Worker σ} {s : Option Stop} {e : Nat × ErrorInfo}
    (hm : WorkerMove setup p id w s q) (he : e ∈ p.failures) : e ∈ q.failures := by
  cases hm with
  | tells => exact List.mem_append_left _ he
  | _ => exact he

/-- No move of a worker puts a task into the queue. -/
theorem WorkerMove.tasks_subset {id : Nat} {w : Worker σ} {s : Option Stop} {task : Task}
    (hm : WorkerMove setup p id w s q) (ht : task ∈ q.tasks) : task ∈ p.tasks := by
  cases hm with
  | takes at_stage queued => exact queued ▸ List.mem_cons_of_mem _ ht
  | _ => exact ht

/-! ### Workers that are gone -/

theorem WorkerMove.not_exited {id : Nat} {w : Worker σ} {s : Option Stop}
    (hm : WorkerMove setup p id w s q) : w.hasExited = false := by
  rw [Worker.hasExited]
  cases hm <;> simp_all [Stage.exit?]

theorem WorkerMove.not_allExited {id : Nat} {w : Worker σ} {s : Option Stop}
    (hw : p.workers[id]? = some w) (hm : WorkerMove setup p id w s q) : p.allExited = false := by
  rw [allExited, List.all_eq_false]
  refine ⟨w, List.mem_of_getElem? hw, ?_⟩
  rw [hm.not_exited]
  exact Bool.false_ne_true

/-! ## Parts of the coordinator's moves -/

theorem refill_cases {p' : Pool σ} (h : p.refill = .ok p') :
    (p.rest.next? = none ∧ p' = p) ∨
      ∃ b rest, p.rest.next? = some (b, rest) ∧ p' = { p with rest }.dispatch b := by
  rw [refill] at h
  split at h
  · rename_i b rest hnext
    rw [tryDispatch] at h
    split at h
    · cases h
    · cases h
      exact .inr ⟨b, rest, hnext, rfl⟩
  · rename_i hnone
    cases h
    exact .inl ⟨hnone, rfl⟩

/-- As long as tasks can come they can be sent, as the coordinator itself could receive them. -/
theorem refusal_eq_none (h : p.tasksOpen = true) : p.refusal? = none := by
  have hreceivers : p.receivers ≠ 0 := by
    rw [receivers]
    omega
  rw [refusal?, h, if_neg (by decide), if_neg hreceivers]

theorem awaitBatches_cases (p : Pool σ) :
    (p.outstanding = [] ∧
      p.awaitBatches = { p.enter .draining with control := .closing p.workers.length }) ∨
    (p.outstanding ≠ [] ∧ p.awaitBatches = { p with control := .atFailures }) := by
  rw [awaitBatches]
  cases h : p.outstanding with
  | nil => exact .inl ⟨rfl, rfl⟩
  | cons e outstanding => exact .inr ⟨by simp, rfl⟩

/-- The workers that have reported their end, with one more. -/
def withDying (p : Pool σ) (worker : Nat) : List Nat :=
  if p.dying.contains worker then p.dying else worker :: p.dying

theorem mem_withDying {worker id : Nat} : id ∈ p.withDying worker ↔ id = worker ∨ id ∈ p.dying := by
  rw [withDying]
  split
  · rename_i h
    have hmem : worker ∈ p.dying := List.contains_iff_mem.mp h
    exact ⟨.inr, fun hid => hid.elim (fun he => he ▸ hmem) (fun h => h)⟩
  · exact List.mem_cons

theorem noteDying_cases (p : Pool σ) (worker : Nat) :
    ((p.withDying worker).length < p.workers.length ∧
      p.noteDying worker = { p with dying := p.withDying worker, control := .atFailures }) ∨
    (p.workers.length ≤ (p.withDying worker).length ∧
      p.noteDying worker =
        { p with dying := p.withDying worker, tasksOpen := false, control := .joining }) := by
  by_cases h : (p.withDying worker).length < p.workers.length
  · exact .inl ⟨h, if_pos h⟩
  · exact .inr ⟨Nat.le_of_not_lt h, if_neg h⟩

/-- What the coordinator changes and leaves alone when it takes the word that a worker has ended. -/
structure Noted (p : Pool σ) (worker : Nat) (q : Pool σ) : Prop where
  rest : q.rest = p.rest
  tasks : q.tasks = p.tasks
  reports : q.reports = p.reports
  failures : q.failures = p.failures
  workers : q.workers = p.workers
  lock : q.lock = p.lock
  cancel : q.cancel = p.cancel
  outstanding : q.outstanding = p.outstanding
  tally : q.tally = p.tally
  progress : q.progress = p.progress
  phase : q.phase = p.phase
  dying : q.dying = p.withDying worker
  control : q.control = .atFailures ∨ q.control = .joining

theorem noteDying_noted (p : Pool σ) (worker : Nat) : Noted p worker (p.noteDying worker) := by
  rcases noteDying_cases p worker with ⟨-, hq⟩ | ⟨-, hq⟩
  · rw [hq]
    exact ⟨rfl, rfl, rfl, rfl, rfl, rfl, rfl, rfl, rfl, rfl, rfl, rfl, .inl rfl⟩
  · rw [hq]
    exact ⟨rfl, rfl, rfl, rfl, rfl, rfl, rfl, rfl, rfl, rfl, rfl, rfl, .inr rfl⟩

/-- What the coordinator leaves alone when it records a batch and goes on, and where it stands
then. -/
structure Recorded (p : Pool σ) (reports : List Report) (r : Recording) (q : Pool σ) : Prop where
  tasksOpen : q.tasksOpen = p.tasksOpen
  reports : q.reports = reports
  failures : q.failures = p.failures
  workers : q.workers = p.workers
  lock : q.lock = p.lock
  cancel : q.cancel = p.cancel
  tally : q.tally = List.zipWith (· :: ·) r.results p.tally
  dying : q.dying = p.dying
  control : q.control = .closing p.workers.length ∨ q.control = .atFailures

theorem recorded_refill {p' : Pool σ} {reports : List Report} {r : Recording} {rows : Nat}
    (h : (p.recorded reports r rows).refill = .ok p') : Recorded p reports r p'.awaitBatches := by
  rcases refill_cases h with ⟨-, rfl⟩ | ⟨b, rest, -, rfl⟩
  · rcases awaitBatches_cases (p.recorded reports r rows) with ⟨-, hq⟩ | ⟨-, hq⟩
    · rw [hq]
      exact ⟨rfl, rfl, rfl, rfl, rfl, rfl, rfl, rfl, .inl rfl⟩
    · rw [hq]
      exact ⟨rfl, rfl, rfl, rfl, rfl, rfl, rfl, rfl, .inr rfl⟩
  · rcases awaitBatches_cases ({ p.recorded reports r rows with rest }.dispatch b) with
      ⟨-, hq⟩ | ⟨-, hq⟩
    · rw [hq]
      exact ⟨rfl, rfl, rfl, rfl, rfl, rfl, rfl, rfl, .inl rfl⟩
    · rw [hq]
      exact ⟨rfl, rfl, rfl, rfl, rfl, rfl, rfl, rfl, .inr rfl⟩

/-- The coordinator never touches a worker or the lock of the tasks. -/
theorem CoordinatorMove.workers {r : Option Recording} (hm : CoordinatorMove p r q) :
    q.workers = p.workers ∧ q.lock = p.lock := by
  cases hm with
  -- a report that is rejected may have had its batch struck off first
  | rejects _ _ _ same => exact ⟨same.1, same.2.1⟩
  | records _ _ _ _ _ filled => exact ⟨(recorded_refill filled).workers, (recorded_refill filled).lock⟩
  | @notes worker reports =>
    have hnoted := noteDying_noted { p with reports } worker
    exact ⟨hnoted.workers, hnoted.lock⟩
  | _ => exact ⟨rfl, rfl⟩

theorem CoordinatorMove.allExited_eq {r : Option Recording} (hm : CoordinatorMove p r q) :
    q.allExited = p.allExited := by
  rw [allExited, allExited, hm.workers.1]

/-- A run that is cancelled stays cancelled. -/
theorem CoordinatorMove.cancelled {r : Option Recording} (hm : CoordinatorMove p r q)
    (h : p.cancel = true) : q.cancel = true := by
  cases hm with
  | records _ _ _ _ _ filled => exact (recorded_refill filled).cancel.trans h
  | @notes worker reports => exact (noteDying_noted { p with reports } worker).cancel.trans h
  | readsFailure | rejects | cannotRefill | findsClosed | missesReport | cannotSend => rfl
  | _ => exact h

/-- The coordinator takes reports and makes none. -/
theorem CoordinatorMove.reports_subset {r : Option Recording} {report : Report}
    (hm : CoordinatorMove p r q) (hr : report ∈ q.reports) : report ∈ p.reports := by
  cases hm with
  | @records r reports rows p' at_control sent _ _ _ filled =>
    rw [sent]
    exact List.mem_cons_of_mem _ ((recorded_refill filled).reports ▸ hr)
  | @notes worker reports at_control sent =>
    have hreports : ({ p with reports }.noteDying worker).reports = reports :=
      (noteDying_noted { p with reports } worker).reports
    rw [sent]
    exact List.mem_cons_of_mem _ (hreports ▸ hr)
  -- a run that is given up throws them away
  | readsFailure | rejects | cannotRefill | findsClosed | missesReport | cannotSend => cases hr
  | _ => exact hr

/-- The coordinator records what was reported. -/
theorem CoordinatorMove.recorded_sent {r : Recording} (hm : CoordinatorMove p (some r) q) :
    .generated r.id r.worker r.results ∈ p.reports := by
  cases hm with
  | records at_control sent => exact sent ▸ List.mem_cons_self
  | cannotRefill at_control sent => exact sent ▸ List.mem_cons_self

/-- The coordinator reads a failure only to give the run up, and then throws all away. -/
theorem CoordinatorMove.failures_eq {r : Option Recording} (hm : CoordinatorMove p r q) :
    q.failures = p.failures ∨ q.cancel = true ∧ q.failures = [] := by
  cases hm with
  | readsFailure | rejects | cannotRefill | findsClosed | missesReport | cannotSend =>
    exact .inr ⟨rfl, rfl⟩
  | records _ _ _ _ _ filled => exact .inl (recorded_refill filled).failures
  | @notes worker reports => exact .inl (noteDying_noted { p with reports } worker).failures
  | _ => exact .inl rfl

/-- A run that is not cancelled was not cancelled before. -/
theorem CoordinatorMove.going {r : Option Recording} (hm : CoordinatorMove p r q)
    (hgoing : q.cancel = false) : p.cancel = false := by
  cases hc : p.cancel with
  | false => rfl
  | true => exact absurd hgoing (by rw [hm.cancelled hc]; decide)

end SeededRows.Pool
