/-
  SeededRows.Proofs.Pool.Progress

  A pool never gets stuck. As long as the coordinator has not returned, it has something to look
  at, or a worker that is not gone can move on without it: in the loop over batches because a
  batch that nobody reported waits in the queue, in the loop over ends because the words to
  finish suffice, and in joining and in giving up because the channel of tasks is closed. A run
  that is given up comes to its end: every worker makes a few more moves, in which it takes at
  most one task, and is gone.
-/
import SeededRows.Proofs.Pool.Failures
import SeededRows.Proofs.Pool.Tasks

namespace SeededRows

namespace Pool

variable {σ : Type} {setup : Setup σ} {p q : Pool σ} {batches : Batches RowIds.Stream}
  {workers : Nat} {progress : Progress} {h : History σ}

/-! ## Who can move -/

/-- The coordinator has what it waits for: in its loops a failure, a report or the end of all
reports, afterwards that every worker is gone. -/
def CoordinatorReady (p : Pool σ) : Prop :=
  match p.control with
  | .closing _ => True
  | .joining | .aborting _ => p.allExited = true
  | .returned _ => False
  | _ => p.hasNews = true

/-- A worker can move on: it computes, or it has or can get the lock of the tasks when there is a
task or no more can come. -/
def CanMoveOn (p : Pool σ) (w : Worker σ) : Prop :=
  match w.stage with
  | .waiting => p.lock = none ∧ (p.tasks ≠ [] ∨ p.tasksOpen = false)
  | .receiving => p.tasks ≠ [] ∨ p.tasksOpen = false
  | .exited .. => False
  | _ => True

/-- In its loops the coordinator waits for news. -/
theorem ready_iff_of_polls (hpolls : p.control.Polls) : p.CoordinatorReady ↔ p.hasNews = true := by
  rw [CoordinatorReady]
  cases hc : p.control with
  | atFailures | atReports | asleep | checking | checkingReports => exact Iff.rfl
  | closing | joining | aborting | returned =>
    rw [hc] at hpolls
    exact hpolls.elim

theorem CoordinatorReady.running (h : p.CoordinatorReady) : p.outcome? = none := by
  rw [CoordinatorReady] at h
  rw [outcome?]
  cases hc : p.control with
  | returned o =>
    rw [hc] at h
    exact h.elim
  | _ => rfl

/-- A coordinator that has what it waits for moves. -/
theorem CoordinatorReady.step (setup : Setup σ) (h : p.CoordinatorReady) :
    (p.step setup .coordinator).isSome := by
  rw [Pool.step, moveCoordinator]
  rw [CoordinatorReady] at h
  cases hc : p.control with
  | atFailures =>
    dsimp only
    split <;> rfl
  | atReports =>
    dsimp only
    split
    · rfl
    · split <;> rfl
  | asleep =>
    rw [hc] at h
    dsimp only at h ⊢
    rw [if_pos h]
    rfl
  | checking stopped =>
    dsimp only
    split <;> rfl
  | checkingReports stopped =>
    dsimp only
    split
    · split <;> rfl
    · rfl
  | closing left =>
    dsimp only
    split
    · split <;> rfl
    · split <;> rfl
  | joining =>
    rw [hc] at h
    dsimp only at h ⊢
    rw [if_pos h]
    split <;> rfl
  | aborting error =>
    rw [hc] at h
    dsimp only at h ⊢
    rw [if_pos h]
    rfl
  | returned o =>
    rw [hc] at h
    exact h.elim

/-- A worker that can move on moves. -/
theorem CanMoveOn.step (setup : Setup σ) {id : Nat} {w : Worker σ} (hw : p.workers[id]? = some w)
    (h : p.CanMoveOn w) : (p.step setup (.worker id none)).isSome := by
  rw [Pool.step, hw, Option.bind_some, moveWorker]
  rw [CanMoveOn] at h
  cases hs : w.stage with
  | waiting =>
    rw [hs] at h
    dsimp only at h ⊢
    rw [h.1]
    rfl
  | receiving =>
    rw [hs] at h
    dsimp only at h ⊢
    split
    · rfl
    · rename_i htasks
      rw [h.resolve_left (fun hne => hne htasks), if_neg Bool.false_ne_true]
      rfl
  | working b =>
    dsimp only
    rw [if_neg (by simp)]
    split <;> rfl
  | finishing =>
    dsimp only
    split <;> rfl
  | exited exit held =>
    rw [hs] at h
    exact h.elim
  | _ => rfl

/-! ## Somebody can move -/

/-- Only workers that wait for the lock or for a task may be unable to move on. -/
theorem canMoveOn_or (p : Pool σ) (w : Worker σ) : p.CanMoveOn w ∨ w.hasExited = true ∨
    w.stage = .waiting ∨ w.stage = .receiving := by
  rw [CanMoveOn, Worker.hasExited]
  cases hs : w.stage with
  | waiting => exact .inr (.inr (.inl rfl))
  | receiving => exact .inr (.inr (.inr rfl))
  | exited exit held => exact .inr (.inl rfl)
  | _ => exact .inl trivial

/-- When there is a task, or no more can come, a worker that waits is not kept from moving: it can
have the lock, or the one that has it can move. -/
theorem Locked.canMoveOn (h : p.Locked) (htasks : p.tasks ≠ [] ∨ p.tasksOpen = false) {id : Nat}
    {w : Worker σ} (hw : p.workers[id]? = some w) (hlive : w.hasExited = false) :
    ∃ (id : Nat) (w : Worker σ), p.workers[id]? = some w ∧ p.CanMoveOn w := by
  rcases p.canMoveOn_or w with hmove | hexited | hstage | hstage
  · exact ⟨id, w, hw, hmove⟩
  · rw [hlive] at hexited
    cases hexited
  · cases hlock : p.lock with
    | none => exact ⟨id, w, hw, by rw [CanMoveOn, hstage]; exact ⟨hlock, htasks⟩⟩
    | some j =>
      obtain ⟨v, hv, hvstage⟩ := h.holder hlock
      exact ⟨j, v, hv, by rw [CanMoveOn, hvstage]; exact htasks⟩
  · exact ⟨id, w, hw, by rw [CanMoveOn, hstage]; exact htasks⟩

theorem exists_live (h : p.allExited = false) :
    ∃ (id : Nat) (w : Worker σ), p.workers[id]? = some w ∧ w.hasExited = false := by
  obtain ⟨w, hmem, hw⟩ := List.all_eq_false.mp h
  obtain ⟨id, hid⟩ := List.mem_iff_getElem?.mp hmem
  exact ⟨id, w, hid, Bool.eq_false_iff.mpr hw⟩

variable {all : List Batch}

/-- While batches are outstanding and nobody has reported anything, and all workers wait, a batch
is queued. -/
theorem Reaches.queued_of_running
    (hp : Reaches setup (ofBatches setup batches workers progress) h p)
    (hload : Workload batches workers progress all) (hpolls : p.control.Polls)
    (hrunning : p.phase = .running) (hfailures : p.failures = []) (hreports : p.reports = [])
    (hidle : ∀ {id : Nat} {w : Worker σ}, p.workers[id]? = some w →
      w.hasExited = true ∨ w.stage = .waiting ∨ w.stage = .receiving) : p.tasks ≠ [] := by
  have hgoing := hp.steered.going hpolls.live
  obtain ⟨unpulled, hkept⟩ := hp.kept hload hgoing
  intro htasks
  -- no worker holds a batch: those that wait have none, and one that failed has told it
  have hheld : p.held = [] := by
    rw [held, List.filterMap_eq_nil_iff]
    intro w hmem
    obtain ⟨id, hw⟩ := List.mem_iff_getElem?.mp hmem
    rcases hidle hw with hexited | hstage | hstage
    · rcases (hp.undisturbed hgoing).exited hw hexited with ⟨htold, -⟩ | hended
      · obtain ⟨info, he⟩ := hp.told hgoing hw htold
        rw [hfailures] at he
        cases he
      · exact absurd hended.windsUp ((hp.ends hgoing).early hrunning hw)
    · rw [hstage]
      rfl
    · rw [hstage]
      rfl
  -- so none is under way, but one is outstanding
  have hunderway : p.underway = [] := by
    rw [underway, hheld, queued, htasks, reported, hreports]
    rfl
  have hkeys := hkept.account.keys
  rw [hunderway] at hkeys
  exact hp.steered.awaiting hpolls hrunning (List.map_eq_nil_iff.mp (List.perm_nil.mp hkeys))

/-- While the coordinator waits for ends and a worker may still take a task, a word to finish is
queued. -/
theorem Reaches.queued_of_draining
    (hp : Reaches setup (ofBatches setup batches workers progress) h p) (hpolls : p.control.Polls)
    (hdraining : p.phase = .draining) {id : Nat} {w : Worker σ} (hw : p.workers[id]? = some w)
    (hungry : w.stage.Hungry) : p.tasks ≠ [] := by
  have hsignalled := hp.signalled
  have hshares := hsignalled.shares (hp.steered.going hpolls.live) (by rw [hdraining]; simp)
  rw [hpolls.unsent_eq, Nat.add_zero] at hshares
  -- those told to finish are different workers, and this one is not among them
  have hid : id ∉ dismissed h := by
    intro hmem
    obtain ⟨v, hv, hnot⟩ := hsignalled.satisfied id hmem
    rw [hw] at hv
    cases hv
    exact hnot hungry
  have hsubset : id :: dismissed h ⊆ List.range p.workers.length := by
    intro j hj
    rw [List.mem_range]
    rcases List.mem_cons.mp hj with rfl | hj
    · exact (List.getElem?_eq_some_iff.mp hw).1
    · obtain ⟨v, hv, -⟩ := hsignalled.satisfied j hj
      exact (List.getElem?_eq_some_iff.mp hv).1
  -- so fewer were told than there are workers, and the other words are queued
  have hle := (List.subperm_of_subset (List.nodup_cons.mpr ⟨hid, hsignalled.once⟩) hsubset).length_le
  rw [List.length_cons, List.length_range] at hle
  intro htasks
  rw [words, htasks, List.countP_nil] at hshares
  omega

/-- Somebody can move in every state in which the coordinator has not returned. -/
theorem Reaches.not_stuck (hp : Reaches setup (ofBatches setup batches workers progress) h p)
    (hload : Workload batches workers progress all) (hrunning : p.outcome? = none) :
    p.CoordinatorReady ∨ ∃ (id : Nat) (w : Worker σ), p.workers[id]? = some w ∧ p.CanMoveOn w := by
  -- once no more tasks can come, the workers that are left move
  have hshut (hshut : p.tasksOpen = false) (hready : p.allExited = true → p.CoordinatorReady) :
      p.CoordinatorReady ∨ ∃ (id : Nat) (w : Worker σ), p.workers[id]? = some w ∧ p.CanMoveOn w := by
    cases hall : p.allExited with
    | true => exact .inl (hready hall)
    | false =>
      obtain ⟨id, w, hw, hlive⟩ := exists_live hall
      exact .inr (hp.locked.canMoveOn (.inr hshut) hw hlive)
  by_cases hpolls : p.control.Polls
  -- in the loops, with nothing to look at and nobody that can move, all workers wait
  · by_contra hstuck
    rw [not_or] at hstuck
    obtain ⟨hnews, hnobody⟩ := hstuck
    have hnews : p.failures = [] ∧ p.reports = [] ∧ p.allExited = false := by
      rw [ready_iff_of_polls hpolls] at hnews
      simpa [hasNews, and_assoc] using hnews
    obtain ⟨hfailures, hreports, hall⟩ := hnews
    have hidle {id : Nat} {w : Worker σ} (hw : p.workers[id]? = some w) :
        w.hasExited = true ∨ w.stage = .waiting ∨ w.stage = .receiving :=
      (p.canMoveOn_or w).resolve_left fun hmove => hnobody ⟨id, w, hw, hmove⟩
    obtain ⟨id, w, hw, hlive⟩ := exists_live hall
    -- but then a task is queued, which one of them can take
    refine hnobody (hp.locked.canMoveOn (.inl ?_) hw hlive)
    rcases hp.steered.polling hpolls with hphase | hphase
    · exact hp.queued_of_running hload hpolls hphase hfailures hreports hidle
    · refine hp.queued_of_draining hpolls hphase hw ?_
      rcases hidle hw with hexited | hstage | hstage
      · rw [hlive] at hexited
        cases hexited
      · rw [hstage]
        trivial
      · rw [hstage]
        trivial
  · cases hc : p.control with
    | closing left => exact .inl (by rw [CoordinatorReady, hc]; trivial)
    | joining =>
      exact hshut (hp.steered.shut (.inl hc)) fun hall => by rw [CoordinatorReady, hc]; exact hall
    | aborting error =>
      exact hshut (hp.steered.shut (.inr ⟨error, hc⟩))
        fun hall => by rw [CoordinatorReady, hc]; exact hall
    | returned o =>
      rw [outcome?, hc] at hrunning
      cases hrunning
    | _ => exact absurd (by rw [hc]; trivial) hpolls

/-! ## The end of a run that is given up -/

/-- The worker that moves. -/
def Move.worker? : Move → Option Nat
  | worker id _ => some id
  | _ => none

/-- How many moves a worker made in a history. -/
def movesOf (id : Nat) (h : History σ) : Nat := h.countP fun (_, m) => m.worker? = some id

/-- How many tasks a worker took in a history. -/
def takenBy (id : Nat) (h : History σ) : Nat := (taken h).countP fun (j, _) => j = id

/-- How many more moves a worker makes at most in a run that is cancelled. -/
def Stage.movesLeft : Stage → Nat
  | spawned | working _ => 4
  | waiting | finishing => 3
  | receiving | failing .. => 2
  | took _ | cleaning _ | leaving => 1
  | exited .. => 0

/-- How many more tasks a worker takes at most in a run that is cancelled. -/
def Stage.tasksLeft : Stage → Nat
  | spawned | working _ | waiting | receiving => 1
  | _ => 0

/-- Each move of a worker in a cancelled run brings it nearer to its end. -/
theorem WorkerMove.movesLeft {n id : Nat} {w v : Worker σ} {s : Option Stop}
    (hw : p.workers[id]? = some w) (hm : WorkerMove setup p id w s q) (hcancel : p.cancel = true)
    (hequipped : p.Equipped n) (hv : q.workers[id]? = some v) :
    v.stage.movesLeft + 1 ≤ w.stage.movesLeft := by
  cases hm with
  -- a cancelled run gives no worker new work
  | accepts _ going | windsUp _ going | missesEnd _ going =>
    rw [hcancel] at going
    cases going
  -- and a worker that works has an engine, so none stays where it is
  | idles at_stage with_engine =>
    obtain ⟨engine, he, -⟩ := hequipped.serving hw (by rw [at_stage]; trivial)
    rw [with_engine] at he
    cases he
  | begins at_stage | cannotBegin at_stage | locks at_stage | takes at_stage
  | findsClosed at_stage | isCancelled at_stage | reports at_stage | stopsWorking at_stage
  | givesUp at_stage | finishes at_stage | cannotFinish at_stage | tells at_stage
  | cleansUp at_stage | leaves at_stage =>
    cases (getElem?_set_of_some hw _).symm.trans hv
    rw [at_stage]
    simp [Stage.movesLeft]

/-- A task that a worker takes in a cancelled run is its last. -/
theorem WorkerMove.tasksLeft {id : Nat} {w v : Worker σ} {s : Option Stop}
    (hm : WorkerMove setup p id w s q) (seen : Option Nat) (hw : p.workers[id]? = some w)
    (hcancel : p.cancel = true) (hv : q.workers[id]? = some v) :
    takenBy id [(p, .worker id seen)] + v.stage.tasksLeft ≤ w.stage.tasksLeft := by
  rw [takenBy, taken_cons]
  rcases hm.taken_cases hw seen with ⟨htaken, -⟩ | ⟨task, htaken, -, hstage, v', hv', hstage'⟩
  · rw [htaken]
    show 0 + v.stage.tasksLeft ≤ _
    cases hm with
    | accepts _ going | windsUp _ going | missesEnd _ going =>
      rw [hcancel] at going
      cases going
    | idles =>
      cases (getElem?_set_of_some hw _).symm.trans hv
      exact Nat.le_of_eq (Nat.zero_add _)
    | begins at_stage | cannotBegin at_stage | locks at_stage | takes at_stage
    | findsClosed at_stage | isCancelled at_stage | reports at_stage | stopsWorking at_stage
    | givesUp at_stage | finishes at_stage | cannotFinish at_stage | tells at_stage
    | cleansUp at_stage | leaves at_stage =>
      cases (getElem?_set_of_some hw _).symm.trans hv
      rw [at_stage]
      simp [Stage.tasksLeft]
  · cases hv'.symm.trans hv
    rw [htaken, hstage, hstage']
    simp [taken, Stage.tasksLeft]

/-- A worker that took a task in a cancelled run leaves with its next move. -/
theorem WorkerMove.last {id : Nat} {w v : Worker σ} {s : Option Stop}
    (hw : p.workers[id]? = some w) (hm : WorkerMove setup p id w s q) (hcancel : p.cancel = true)
    (hv : q.workers[id]? = some v) {task : Option Task} (hstage : w.stage = .took task) :
    v.hasExited = true := by
  cases hm with
  | isCancelled =>
    cases (getElem?_set_of_some hw _).symm.trans hv
    rfl
  | accepts _ going | windsUp _ going | missesEnd _ going =>
    rw [hcancel] at going
    cases going
  | begins at_stage | cannotBegin at_stage | locks at_stage | takes at_stage
  | findsClosed at_stage | reports at_stage | stopsWorking at_stage | givesUp at_stage
  | idles at_stage | finishes at_stage | cannotFinish at_stage | tells at_stage
  | cleansUp at_stage | leaves at_stage =>
    rw [hstage] at at_stage
    cases at_stage

/-- What a worker does in a part of a cancelled run, from one state of it to another. -/
structure Leaves (id : Nat) (h : History σ) (w v : Worker σ) : Prop where
  moves : movesOf id h + v.stage.movesLeft ≤ w.stage.movesLeft
  tasks : takenBy id h + v.stage.tasksLeft ≤ w.stage.tasksLeft
  last : takenBy id h ≠ 0 → v.hasExited = true ∨ ∃ task, v.stage = .took task

theorem movesOf_cons {id : Nat} {m : Move} :
    movesOf id ((p, m) :: h) = movesOf id h + if m.worker? = some id then 1 else 0 := by
  rw [movesOf, List.countP_cons, movesOf]
  simp only [decide_eq_true_eq]

theorem takenBy_cons {id : Nat} {m : Move} :
    takenBy id ((p, m) :: h) = takenBy id [(p, m)] + takenBy id h := by
  rw [takenBy, taken_cons, List.countP_append, takenBy, taken_cons, List.countP_append, takenBy]
  rfl

/-- Moves that are not a worker's own leave it as it is. -/
theorem Leaves.other {id : Nat} {w v : Worker σ} (h' : Leaves id h w v) {m : Move}
    (hm : m.worker? ≠ some id) : Leaves id ((p, m) :: h) w v := by
  have htaken : takenBy id [(p, m)] = 0 := by
    rw [takenBy, taken, List.countP_eq_zero]
    intro e he
    obtain ⟨e', he', htake⟩ := List.mem_filterMap.mp he
    rw [List.mem_singleton] at he'
    subst he'
    cases m with
    | worker j seen =>
      have hne : j ≠ id := fun heq => hm (by rw [Move.worker?, heq])
      dsimp only [taken?] at htake
      split at htake
      · cases htake
        simpa using hne
      · cases htake
    | coordinator => cases htake
    | clock => cases htake
  refine ⟨?_, ?_, ?_⟩
  · rw [movesOf_cons, if_neg hm]
    exact h'.moves
  · rw [takenBy_cons, htaken, Nat.zero_add]
    exact h'.tasks
  · rw [takenBy_cons, htaken, Nat.zero_add]
    exact h'.last

theorem Leaves.worker {n id : Nat} {seen : Option Nat} {w v v' : Worker σ} {s : Option Stop}
    (h' : Leaves id h w v) (hv : p.workers[id]? = some v) (hm : WorkerMove setup p id v s q)
    (hcancel : p.cancel = true) (hequipped : p.Equipped n) (hv' : q.workers[id]? = some v') :
    Leaves id ((p, .worker id seen) :: h) w v' := by
  have hmoves := hm.movesLeft hv hcancel hequipped hv'
  have htasks := hm.tasksLeft seen hv hcancel hv'
  have hbefore := h'.moves
  have htaken := h'.tasks
  refine ⟨?_, ?_, ?_⟩
  · rw [movesOf_cons, if_pos (show (Move.worker id seen).worker? = some id from rfl)]
    omega
  · rw [takenBy_cons]
    omega
  · rw [takenBy_cons]
    intro hsome
    rcases Nat.eq_zero_or_pos (takenBy id h) with hzero | hpos
    -- the task was taken in this move, or this move follows it
    · rcases hm.taken_cases hv seen with ⟨hnone, -⟩ | ⟨task, -, -, -, u, hu, hstage⟩
      · rw [takenBy, taken_cons, hnone] at hsome
        exact absurd ((Nat.zero_add _).trans hzero) hsome
      · rw [hu] at hv'
        cases hv'
        exact .inr ⟨_, hstage⟩
    · rcases h'.last (Nat.ne_of_gt hpos) with hexited | ⟨task, hstage⟩
      · rw [hm.not_exited] at hexited
        cases hexited
      · exact .inl (hm.last hv hcancel hv' hstage)

/-- After a run is cancelled, every worker leaves. -/
theorem Reaches.leaves (hp : Reaches setup (ofBatches setup batches workers progress) h p)
    (hcancel : p.cancel = true) {h' : History σ} (hq : Reaches setup p h' q) {id : Nat}
    {w : Worker σ} (hw : p.workers[id]? = some w) :
    q.cancel = true ∧ ∃ v, q.workers[id]? = some v ∧ Leaves id h' w v := by
  refine hq.along (I := fun h' q => q.cancel = true ∧ ∃ v, q.workers[id]? = some v ∧
    Leaves id h' w v) ?_ ?_ ?_
  · exact ⟨hcancel, w, hw, Nat.le_of_eq (Nat.zero_add _), Nat.le_of_eq (Nat.zero_add _),
      fun hsome => absurd rfl hsome⟩
  · rintro h' q q' j seen u hq ⟨hcancel, v, hv, hleaves⟩ hu hm
    refine ⟨hm.sameCoordinator.cancel.trans hcancel, ?_⟩
    rcases eq_or_ne j id with rfl | hne
    · obtain rfl : v = u := Option.some.inj (hv.symm.trans hu)
      obtain ⟨v', hv'⟩ := hm.moved hv
      exact ⟨v', hv', hleaves.worker hv hm hcancel (hp.trans hq).equipped hv'⟩
    · exact ⟨v, (hm.getElem?_ne hne).trans hv,
        hleaves.other (fun heq => hne (Option.some.inj heq))⟩
  · rintro h' q q' m hq ⟨hcancel, v, hv, hleaves⟩ hm' hm
    refine ⟨hm.cancelled hcancel, v, ?_, hleaves.other ?_⟩
    · rw [hm.workers.1]
      exact hv
    · rcases hm' with rfl | rfl
      · exact fun h => nomatch h
      · exact fun h => nomatch h

theorem Stage.movesLeft_le (stage : Stage) : stage.movesLeft ≤ 4 := by
  cases stage <;> simp [movesLeft]

theorem Stage.tasksLeft_le (stage : Stage) : stage.tasksLeft ≤ 1 := by
  cases stage <;> simp [tasksLeft]

end Pool

/-! ## Runs of validated coordinators -/

namespace Coordinator

variable {σ : Type} {settings : Settings} {order : FieldOrder} {configured : List (Copy σ)}
  {c : Coordinator σ} {ids : Random.Source} {rows : RowIds.Stream} {entropy : Entropy}
  {settle : Pool.Settling σ} {h : Pool.History σ} {p : Pool σ}

/-- The pool of a validated coordinator never gets stuck: before the coordinator has returned, it
has something to look at or is past its waits, or a worker that is not gone can move on, and so a
move other than the clock's is possible. While the pool is drained there is one word to finish for
each worker, taken, queued or still to be sent, and no worker takes two. Once the run is cancelled,
every worker makes at most four more moves, takes at most one more task in them, and leaves with
the next one. When the coordinator has returned, every worker is gone. -/
theorem pool_never_stuck (hc : ofSettings settings order configured = .ok c)
    (hworkers : 2 ≤ settings.workers) (hrows : settings.rowStream ids = .ok rows)
    (hp : Pool.Reaches (c.setup entropy settle) (c.pool entropy settle rows) h p) :
    (p.outcome? = none →
      (p.CoordinatorReady ∨ ∃ (id : Nat) (w : Pool.Worker σ),
        p.workers[id]? = some w ∧ p.CanMoveOn w) ∧
      ∃ m, m ≠ .clock ∧ (p.step (c.setup entropy settle) m).isSome) ∧
    (p.control.Live → p.phase = .draining →
      (Pool.dismissed h).Nodup ∧
      (Pool.dismissed h).length + p.words + p.unsent = settings.workers) ∧
    (p.cancel = true → ∀ (h' : Pool.History σ) (q : Pool σ),
      Pool.Reaches (c.setup entropy settle) p h' q → ∀ id w, q.workers[id]? = some w →
        q.cancel = true ∧ Pool.movesOf id h' ≤ 4 ∧ Pool.takenBy id h' ≤ 1 ∧
        (Pool.takenBy id h' = 1 → w.hasExited = true ∨ ∃ task, w.stage = .took task)) ∧
    (p.outcome? ≠ none → p.workers.length = settings.workers ∧
      ∀ w ∈ p.workers, w.hasExited = true) := by
  obtain ⟨-, -, rfl⟩ := ofSettings_eq_ok hc
  obtain ⟨all, hload, -⟩ := workload_of_run hrows (Nat.lt_of_lt_of_le Nat.two_pos hworkers)
  refine ⟨?_, ?_, ?_, ?_⟩
  -- before the coordinator has returned
  · intro hrunning
    have hfree := hp.not_stuck hload hrunning
    refine ⟨hfree, ?_⟩
    rcases hfree with hready | ⟨id, w, hw, hmove⟩
    · exact ⟨.coordinator, by simp, hready.step _⟩
    · exact ⟨.worker id none, by simp, hmove.step _ hw⟩
  -- while the pool is drained
  · intro hlive hdraining
    refine ⟨hp.signalled.once, ?_⟩
    rw [hp.signalled.shares (hp.steered.going hlive) (by rw [hdraining]; simp)]
    exact hp.length_workers
  -- once the run is cancelled
  · intro hcancel h' q hq id w hw
    have hlength : p.workers.length = q.workers.length :=
      hp.length_workers.trans (hp.trans hq).length_workers.symm
    have hlt : id < p.workers.length := hlength ▸ (List.getElem?_eq_some_iff.mp hw).1
    obtain ⟨hcancelled, v, hv, hleaves⟩ := hp.leaves hcancel hq (List.getElem?_eq_getElem hlt)
    rw [hw] at hv
    cases hv
    have hmoves := hleaves.moves
    have htasks := hleaves.tasks
    have hfour := p.workers[id].stage.movesLeft_le
    have hone := p.workers[id].stage.tasksLeft_le
    refine ⟨hcancelled, by omega, by omega, ?_⟩
    exact fun htaken => hleaves.last (by omega)
  -- when the coordinator has returned
  · intro hreturned
    exact ⟨hp.length_workers,
      List.all_eq_true.mp (hp.returned_exited Pool.ofBatches_outcome hreturned)⟩

/-- A pair of workers that drains its pool has a word to finish for each of them, and both are gone
when the coordinator has returned. -/
theorem pool_never_stuck_pair :
    (∃ h, Pool.Reaches (pairSetup counting) (pairPool counting 0) h (pairPool counting 23) ∧
      (Pool.dismissed h).length + (pairPool counting 23).words + (pairPool counting 23).unsent = 2 ∧
      ∃ m, m ≠ .clock ∧ ((pairPool counting 23).step (pairSetup counting) m).isSome) ∧
    ∀ w ∈ (pairPool counting 47).workers, w.hasExited = true := by
  refine ⟨?_, ?_⟩
  · obtain ⟨h, hp⟩ := pair_reaches counting 23
    have hcontrol : (pairPool counting 23).control = .closing 2 := rfl
    obtain ⟨hfree, hshares, -, -⟩ :=
      pool_never_stuck ofSettings_counting (by decide) pairSettings_rowStream hp
    exact ⟨h, hp, (hshares (by rw [hcontrol]; trivial) rfl).2, (hfree rfl).2⟩
  · obtain ⟨h, hp⟩ := pair_reaches counting 47
    have hreturned : (pairPool counting 47).outcome? = some (.ok ()) := rfl
    obtain ⟨-, -, -, hexited⟩ :=
      pool_never_stuck ofSettings_counting (by decide) pairSettings_rowStream hp
    exact (hexited (by rw [hreturned]; simp)).2

end Coordinator

end SeededRows
