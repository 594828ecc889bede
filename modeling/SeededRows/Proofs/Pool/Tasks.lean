/-
  SeededRows.Proofs.Pool.Tasks

  Who takes which task. One worker at a time has the lock of the tasks, and it is the one that
  waits for a task. Once the pool is drained, one word that no more batches follow is sent for
  each worker; a worker takes at most one of them, since it takes no task afterwards, so the
  words that are left suffice for the workers that still want a task.
-/
import SeededRows.Proofs.Pool.Ends

namespace SeededRows.Pool

variable {σ : Type} {setup : Setup σ} {p q : Pool σ} {h : History σ}

/-! ## The lock -/

/-- The worker that has the lock is the one that waits for a task. -/
structure Locked (p : Pool σ) : Prop where
  holder : ∀ {id : Nat}, p.lock = some id → ∃ w, p.workers[id]? = some w ∧ w.stage = .receiving
  held : ∀ {id : Nat} {w : Worker σ}, p.workers[id]? = some w → w.stage = .receiving →
    p.lock = some id

/-- How a move of a worker treats the lock: it takes it when it is free, gives back its own, or
leaves it alone. -/
theorem WorkerMove.lock_cases {id : Nat} {w : Worker σ} {s : Option Stop}
    (hw : p.workers[id]? = some w) (hm : WorkerMove setup p id w s q) :
    (p.lock = none ∧ q.lock = some id ∧ ∃ v, q.workers[id]? = some v ∧ v.stage = .receiving) ∨
    (q.lock = none ∧ w.stage = .receiving ∧
      ∀ v, q.workers[id]? = some v → v.stage ≠ .receiving) ∨
    (q.lock = p.lock ∧ w.stage ≠ .receiving ∧
      ∀ v, q.workers[id]? = some v → v.stage ≠ .receiving) := by
  cases hm with
  | locks at_stage free => exact .inl ⟨free, rfl, _, getElem?_set_of_some hw _, rfl⟩
  | takes at_stage | findsClosed at_stage =>
    refine .inr (.inl ⟨rfl, at_stage, ?_⟩)
    intro v hv
    cases (getElem?_set_of_some hw _).symm.trans hv
    simp
  | idles at_stage =>
    refine .inr (.inr ⟨rfl, by simp [at_stage], ?_⟩)
    intro v hv
    cases (getElem?_set_of_some hw _).symm.trans hv
    simp [at_stage]
  | begins at_stage | cannotBegin at_stage | isCancelled at_stage | accepts at_stage
  | windsUp at_stage | missesEnd at_stage | reports at_stage | stopsWorking at_stage
  | givesUp at_stage | finishes at_stage | cannotFinish at_stage | tells at_stage
  | cleansUp at_stage | leaves at_stage =>
    refine .inr (.inr ⟨rfl, by simp [at_stage], ?_⟩)
    intro v hv
    cases (getElem?_set_of_some hw _).symm.trans hv
    simp

theorem Locked.worker {id : Nat} {w : Worker σ} {s : Option Stop} (h : p.Locked)
    (hw : p.workers[id]? = some w) (hm : WorkerMove setup p id w s q) : q.Locked := by
  -- another worker that waits for a task did so before
  have hother {j : Nat} {v : Worker σ} (hne : id ≠ j) (hv : q.workers[j]? = some v)
      (hstage : v.stage = .receiving) : p.lock = some j :=
    h.held ((hm.getElem?_ne hne).symm.trans hv) hstage
  rcases hm.lock_cases hw with ⟨hfree, hlock, hself⟩ | ⟨hlock, hbefore, hself⟩ |
    ⟨hlock, hbefore, hself⟩
  -- it takes the lock, which was free
  · constructor
    · intro j hj
      cases hlock.symm.trans hj
      exact hself
    · intro j v hv hstage
      rcases eq_or_ne id j with rfl | hne
      · exact hlock
      · cases hfree.symm.trans (hother hne hv hstage)
  -- it gives its lock back
  · constructor
    · intro j hj
      cases hlock.symm.trans hj
    · intro j v hv hstage
      rcases eq_or_ne id j with rfl | hne
      · exact absurd hstage (hself v hv)
      · have hlocked := (h.held hw hbefore).symm.trans (hother hne hv hstage)
        exact absurd (Option.some.inj hlocked) hne
  -- it has nothing to do with the lock
  · constructor
    · intro j hj
      exact hm.persists hw (fun _ hstage => absurd hstage hbefore) (h.holder (hlock.symm.trans hj))
    · intro j v hv hstage
      rcases eq_or_ne id j with rfl | hne
      · exact absurd hstage (hself v hv)
      · exact hlock.trans (hother hne hv hstage)

theorem Reaches.locked {batches : Batches RowIds.Stream} {workers : Nat} {progress : Progress}
    (hp : Reaches setup (ofBatches setup batches workers progress) h p) : p.Locked := by
  refine hp.invariant (I := fun _ _ p => p.Locked) ?_ ?_ ?_
  · have hstart := ofBatches_untouched setup batches workers progress
    constructor
    · intro id hid
      rw [hstart.lock] at hid
      cases hid
    · intro id w hw hstage
      rw [hstart.fresh hw] at hstage
      cases hstage
  · exact fun _ hi hw hm => hi.worker hw hm
  · intro h p q r _ hi hm
    constructor
    · intro id hid
      rw [hm.workers.1]
      exact hi.holder (hm.workers.2.symm.trans hid)
    · intro id w hw hstage
      rw [hm.workers.1] at hw
      exact hm.workers.2.trans (hi.held hw hstage)

/-! ## Tasks taken -/

/-- Whether a task is the word that no more batches follow. -/
def Task.isDone : Task → Bool
  | .done => true
  | .batch _ => false

/-- The task that a worker takes in a move, if it takes one. -/
def taken? (p : Pool σ) : Move → Option (Nat × Task)
  | .worker id _ =>
    match p.workers[id]?.map Worker.stage, p.tasks with
    | some .receiving, task :: _ => some (id, task)
    | _, _ => none
  | _ => none

/-- The tasks taken in a history with the workers that took them, the latest first. -/
def taken (h : History σ) : List (Nat × Task) := h.filterMap fun (p, m) => p.taken? m

/-- The workers that took the word that no more batches follow, the latest first. -/
def dismissed (h : History σ) : List Nat := ((taken h).filter fun (_, task) => task.isDone).map Prod.fst

theorem taken_cons {m : Move} : taken ((p, m) :: h) = (p.taken? m).toList ++ taken h := by
  cases ht : p.taken? m <;> simp [taken, ht]

/-- The worker may still take a task. -/
def Stage.Hungry : Stage → Prop
  | spawned | waiting | receiving | took none | took (some (.batch _)) | working _ => True
  | _ => False

/-- A move of a worker takes the first task, or none. -/
theorem WorkerMove.taken_cases {id : Nat} {w : Worker σ} {s : Option Stop}
    (hw : p.workers[id]? = some w) (hm : WorkerMove setup p id w s q) (seen : Option Nat) :
    (p.taken? (.worker id seen) = none ∧ q.tasks = p.tasks) ∨
    ∃ task, p.taken? (.worker id seen) = some (id, task) ∧ p.tasks = task :: q.tasks ∧
      w.stage = .receiving ∧ ∃ v, q.workers[id]? = some v ∧ v.stage = .took (some task) := by
  cases hm with
  | @takes task tasks at_stage queued =>
    refine .inr ⟨task, ?_, queued, at_stage, _, getElem?_set_of_some hw _, rfl⟩
    rw [taken?, hw, Option.map_some, at_stage, queued]
  | findsClosed at_stage queued =>
    refine .inl ⟨?_, rfl⟩
    rw [taken?, queued]
    split
    · rename_i htasks
      cases htasks
    · rfl
  | begins at_stage | cannotBegin at_stage | locks at_stage | isCancelled at_stage
  | accepts at_stage | windsUp at_stage | missesEnd at_stage | reports at_stage
  | stopsWorking at_stage | givesUp at_stage | idles at_stage | finishes at_stage
  | cannotFinish at_stage | tells at_stage | cleansUp at_stage | leaves at_stage =>
    refine .inl ⟨?_, rfl⟩
    rw [taken?, hw, Option.map_some, at_stage]

/-- A worker that takes no more tasks takes none ever after. -/
theorem WorkerMove.hungry {id : Nat} {w v : Worker σ} {s : Option Stop}
    (hw : p.workers[id]? = some w) (hm : WorkerMove setup p id w s q)
    (hv : q.workers[id]? = some v) (hungry : v.stage.Hungry) : w.stage.Hungry := by
  cases hm with
  | begins at_stage | locks at_stage | takes at_stage | findsClosed at_stage | accepts at_stage
  | reports at_stage | idles at_stage =>
    rw [at_stage]
    trivial
  | _ =>
    cases (getElem?_set_of_some hw _).symm.trans hv
    exact hungry.elim

/-! ## Words to finish -/

/-- How many words that no more batches follow are still to be sent. -/
def unsent (p : Pool σ) : Nat :=
  match p.control with
  | .closing left => left
  | _ => 0

/-- The words that no more batches follow that are queued. -/
def words (p : Pool σ) : Nat := p.tasks.countP Task.isDone

/-- No worker takes two words to finish, and those taken, queued and still to be sent are one for
each worker, once the pool is drained. -/
structure Signalled (h : History σ) (p : Pool σ) : Prop where
  once : (dismissed h).Nodup
  satisfied : ∀ id ∈ dismissed h, ∃ w, p.workers[id]? = some w ∧ ¬ w.stage.Hungry
  early : p.cancel = false → p.phase = .running → dismissed h = []
  shares : p.cancel = false → p.phase ≠ .running →
    (dismissed h).length + p.words + p.unsent = p.workers.length

theorem dismissed_cons {m : Move} : dismissed ((p, m) :: h) =
    ((p.taken? m).toList.filter fun (_, task) => task.isDone).map Prod.fst ++ dismissed h := by
  rw [dismissed, taken_cons, List.filter_append, List.map_append, dismissed]

/-- A move of a worker adds that worker to those told to finish, or none. -/
theorem WorkerMove.dismissed_cases {id : Nat} {seen : Option Nat} {w : Worker σ} {s : Option Stop}
    (hw : p.workers[id]? = some w) (hm : WorkerMove setup p id w s q) :
    (dismissed ((p, .worker id seen) :: h) = dismissed h ∧ q.words = p.words) ∨
    (dismissed ((p, .worker id seen) :: h) = id :: dismissed h ∧ p.words = q.words + 1 ∧ .done ∈ p.tasks ∧
      w.stage.Hungry ∧ ∃ v, q.workers[id]? = some v ∧ ¬ v.stage.Hungry) := by
  rw [dismissed_cons, words, words]
  rcases hm.taken_cases hw _ with ⟨htaken, htasks⟩ | ⟨task, htaken, htasks, hstage, v, hv, hvstage⟩
  · rw [htaken, htasks]
    exact .inl ⟨rfl, rfl⟩
  · rw [htaken, htasks]
    cases task with
    | batch b => exact .inl ⟨rfl, rfl⟩
    | done =>
      refine .inr ⟨rfl, List.countP_cons_of_pos rfl, List.mem_cons_self, ?_, v, hv, ?_⟩
      · rw [hstage]
        trivial
      · rw [hvstage]
        exact fun hungry => hungry

theorem Signalled.worker {id : Nat} {seen : Option Nat} {w : Worker σ} {s : Option Stop}
    (h' : Signalled h p) (hends : p.cancel = false → p.Ends) (hw : p.workers[id]? = some w)
    (hm : WorkerMove setup p id w s q) : Signalled ((p, .worker id seen) :: h) q := by
  have hs := hm.sameCoordinator
  have hunsent : q.unsent = p.unsent := by rw [unsent, unsent, hs.control]
  have hsatisfied {j : Nat} (hj : j ∈ dismissed h) :
      ∃ v, q.workers[j]? = some v ∧ ¬ v.stage.Hungry :=
    hm.persists hw (fun hv hnot hungry => hnot (hm.hungry hw hv hungry)) (h'.satisfied j hj)
  rcases hm.dismissed_cases hw with ⟨hdismissed, hwords⟩ | ⟨hdismissed, hwords, hdone, hungry, hnow⟩
  -- nobody was told to finish
  · refine ⟨?_, ?_, ?_, ?_⟩
    · rw [hdismissed]
      exact h'.once
    · rw [hdismissed]
      exact fun j hj => hsatisfied hj
    · rw [hdismissed, hs.cancel, hs.phase]
      exact h'.early
    · rw [hdismissed, hwords, hunsent, hs.cancel, hs.phase, hs.length]
      exact h'.shares
  -- this worker was, and a word less is queued
  · refine ⟨?_, ?_, ?_, ?_⟩
    · -- a worker that was told to finish would not have taken another task
      rw [hdismissed, List.nodup_cons]
      refine ⟨?_, h'.once⟩
      intro hmem
      obtain ⟨v, hv, hnot⟩ := h'.satisfied id hmem
      rw [hw] at hv
      cases hv
      exact hnot hungry
    · rw [hdismissed]
      intro j hj
      rcases List.mem_cons.mp hj with rfl | hj
      · exact hnow
      · exact hsatisfied hj
    · rw [hs.cancel, hs.phase]
      intro hgoing hrunning
      exact absurd hdone ((hends hgoing).unsaid hrunning)
    · rw [hdismissed, hunsent, hs.cancel, hs.phase, hs.length, List.length_cons]
      intro hgoing hphase
      have := h'.shares hgoing hphase
      omega

theorem words_eq_zero (h : .done ∉ p.tasks) : p.words = 0 := by
  rw [words, List.countP_eq_zero]
  intro task htask hdone
  cases task with
  | batch b => cases hdone
  | done => exact h htask

theorem Control.Polls.unsent_eq (h : p.control.Polls) : p.unsent = 0 := by
  rw [unsent]
  split
  · rename_i hc
    rw [hc] at h
    exact h.elim
  · rfl

/-- What a coordinator that records a batch still has to send, when it was the last one. -/
theorem shares_of_recorded {reports : List Report} {r : Recording} {rows : Nat} {p' : Pool σ}
    (hnone : .done ∉ p.tasks) (hrunning : p.phase = .running)
    (filled : (p.recorded reports r rows).refill = .ok p')
    (hphase : p'.awaitBatches.phase ≠ .running) :
    p'.awaitBatches.words + p'.awaitBatches.unsent = p.workers.length := by
  have htasks : .done ∉ p'.tasks ∧ p'.workers = p.workers ∧ p'.phase = .running := by
    rcases refill_cases filled with ⟨-, rfl⟩ | ⟨b, rest, -, rfl⟩
    · exact ⟨hnone, rfl, hrunning⟩
    · refine ⟨?_, rfl, hrunning⟩
      intro hdone
      rcases List.mem_append.mp hdone with hdone | hdone
      · exact hnone hdone
      · rw [List.mem_singleton] at hdone
        cases hdone
  rcases p'.awaitBatches_cases with ⟨-, hq⟩ | ⟨-, hq⟩
  · rw [hq]
    show p'.words + p'.workers.length = _
    rw [words_eq_zero htasks.1, htasks.2.1, Nat.zero_add]
  · rw [hq] at hphase
    exact absurd htasks.2.2 hphase

theorem Signalled.coordinator {r : Option Recording} {m : Move} (h' : Signalled h p)
    (hsteered : p.Steered) (hends : p.cancel = false → p.Ends) (hm' : m = .coordinator ∨ m = .clock)
    (hm : CoordinatorMove p r q) : Signalled ((p, m) :: h) q := by
  have hdismissed : dismissed ((p, m) :: h) = dismissed h := by
    rw [dismissed_cons]
    rcases hm' with rfl | rfl
    · rfl
    · rfl
  obtain ⟨honce, hsatisfied, hearly, hshares⟩ := h'
  rw [← hm.workers.1] at hsatisfied
  refine ⟨hdismissed ▸ honce, hdismissed ▸ hsatisfied, ?_, ?_⟩
  -- a pool that is not drained was not drained before
  · rw [hdismissed]
    intro hgoing hphase
    refine hearly (hm.going hgoing) ?_
    cases hm with
    | readsFailure | rejects | cannotRefill | findsClosed | missesReport | cannotSend => cases hgoing
    | records at_control sent running =>
      exact (hsteered.polling (by rw [at_control]; trivial)).resolve_right running
    | @notes worker reports => exact (noteDying_noted { p with reports } worker).phase.symm.trans hphase
    | joinsBadly | joins | aborts => cases hphase
    | _ => exact hphase
  -- the words in all their places stay as many as there are workers
  · rw [hdismissed]
    intro hgoing hphase
    have hbefore := hm.going hgoing
    have hends := hends hbefore
    -- in its loops the coordinator has nothing to send
    have hround (hpolls : p.control.Polls) (hphase : p.phase ≠ .running) :
        (dismissed h).length + p.words = p.workers.length := by
      have := hshares hbefore hphase
      rwa [hpolls.unsent_eq, Nat.add_zero] at this
    cases hm with
    | readsFailure | rejects | cannotRefill | findsClosed | missesReport | cannotSend => cases hgoing
    | @records r reports rows p' at_control sent running found counted filled =>
      have hrunning := (hsteered.polling (by rw [at_control]; trivial)).resolve_right running
      rw [hearly hbefore hrunning, (recorded_refill filled).workers]
      have := shares_of_recorded (hends.unsaid hrunning) hrunning filled hphase
      rw [List.length_nil]
      omega
    | @notes worker reports at_control sent draining =>
      have hnoted := noteDying_noted { p with reports } worker
      have hunsent : ({ p with reports }.noteDying worker).unsent = 0 := by
        rw [unsent]
        rcases hnoted.control with hq | hq <;> rw [hq]
      rw [hunsent, hnoted.workers, words, hnoted.tasks]
      exact hround (by rw [at_control]; trivial) (by rw [draining]; simp)
    | seesNoFailure at_control | fallsAsleep at_control | wakes at_control | checks at_control
    | findsNoFailure at_control | goesOn at_control =>
      exact hround (by rw [at_control]; trivial) hphase
    -- from those to be sent to those queued
    | sendsDone at_control =>
      have := hshares hbefore hphase
      rw [unsent, at_control] at this
      simp only [words, unsent, List.countP_append] at this ⊢
      rw [List.countP_singleton]
      simp only [Task.isDone, if_true]
      omega
    | waitsForEnds at_control | hasAllEnds at_control =>
      have := hshares hbefore hphase
      rwa [unsent, at_control] at this
    | joinsBadly at_control | joins at_control =>
      have := hshares hbefore (by rw [hsteered.ending (.inl at_control)]; simp)
      rwa [unsent, at_control] at this
    | aborts at_control =>
      rw [hsteered.aborting at_control] at hbefore
      cases hbefore

theorem Reaches.signalled {batches : Batches RowIds.Stream} {workers : Nat} {progress : Progress}
    (hp : Reaches setup (ofBatches setup batches workers progress) h p) : Signalled h p := by
  refine hp.along (I := fun h p => Signalled h p) ?_ ?_ ?_
  · have hstart := ofBatches_untouched setup batches workers progress
    refine ⟨List.nodup_nil, ?_, fun _ _ => rfl, ?_⟩
    · intro id hid
      cases hid
    · intro _ hphase
      have hdone : .done ∉ (ofBatches setup batches workers progress).tasks := by
        rw [hstart.tasks]
        intro hdone
        obtain ⟨b, -, hb⟩ := List.mem_map.mp hdone
        cases hb
      rw [words_eq_zero hdone, unsent, hstart.phase.resolve_left hphase, hstart.staff,
        List.length_replicate]
      exact Nat.zero_add _
  · exact fun hp hi hw hm => hi.worker hp.ends hw hm
  · exact fun hp hi hm' hm => hi.coordinator hp.steered hp.ends hm' hm

end SeededRows.Pool
