/-
  SeededRows.Proofs.Pool.Start

  A pool before its first move: nothing was sent, no worker has begun, and the first batches,
  four for each worker, are in the queue of tasks.
-/
import SeededRows.Proofs.Pool.Accounting

namespace SeededRows.Pool

variable {σ : Type} {setup : Setup σ} {p : Pool σ}

/-- As long as tasks can come, batches can be handed out. -/
theorem tryDispatch_eq_ok (h : p.tasksOpen = true) (b : Batch) :
    p.tryDispatch b = .ok (p.dispatch b) := by
  rw [tryDispatch, refusal_eq_none h]

theorem foldlM_tryDispatch (first : List Batch) (h : p.tasksOpen = true) :
    first.foldlM tryDispatch p = .ok (first.foldl dispatch p) := by
  induction first generalizing p with
  | nil => rfl
  | cons b first ih =>
    rw [List.foldlM_cons, tryDispatch_eq_ok h, List.foldl_cons]
    exact ih h

theorem foldl_dispatch (first : List Batch) (p : Pool σ) : ∃ outstanding,
    first.foldl dispatch p = { p with outstanding, tasks := p.tasks ++ first.map .batch } ∧
      outstanding.length ≤ p.outstanding.length + first.length := by
  induction first generalizing p with
  | nil => exact ⟨p.outstanding, by simp, by simp⟩
  | cons b first ih =>
    obtain ⟨outstanding, hfold, hlen⟩ := ih (p.dispatch b)
    refine ⟨outstanding, ?_, ?_⟩
    · rw [List.foldl_cons, hfold]
      simp only [dispatch, List.append_assoc, List.map_cons, List.singleton_append]
    · have hfilter := List.length_filter_le (·.1 ≠ b.id) p.outstanding
      simp only [dispatch, List.length_cons] at hlen ⊢
      omega

/-- What a pool looks like before its first move. -/
structure Untouched (setup : Setup σ) (batches : Batches RowIds.Stream) (workers : Nat)
    (progress : Progress) (p : Pool σ) : Prop where
  rest : p.rest = (batches.take (queuedPerWorker * workers)).2
  tasks : p.tasks = (batches.take (queuedPerWorker * workers)).1.map .batch
  tasksOpen : p.tasksOpen = true
  reports : p.reports = []
  failures : p.failures = []
  staff : p.workers = List.replicate workers .fresh
  lock : p.lock = none
  cancel : p.cancel = false
  tally : p.tally = .empty setup.configured.length
  progress : p.progress = progress
  dying : p.dying = []
  control : p.control = .atFailures ∨ p.control = .closing workers
  phase : p.phase = .running ∨ p.control = .closing workers

/-- No worker has begun. -/
theorem Untouched.fresh {batches : Batches RowIds.Stream} {workers : Nat} {progress : Progress}
    (h : Untouched setup batches workers progress p) {id : Nat} {w : Worker σ}
    (hw : p.workers[id]? = some w) : w = .fresh := by
  rw [h.staff] at hw
  exact List.eq_of_mem_replicate (List.mem_of_getElem? hw)

theorem untouched_awaitBatches {batches : Batches RowIds.Stream} {workers : Nat}
    {progress : Progress} (h : Untouched setup batches workers progress p)
    (hrunning : p.phase = .running) :
    Untouched setup batches workers progress p.awaitBatches := by
  obtain ⟨h1, h2, h3, h4, h5, h6, h7, h8, h9, h10, h11, -, -⟩ := h
  rcases p.awaitBatches_cases with ⟨-, hq⟩ | ⟨-, hq⟩
  · -- there was no batch at all
    have hclosing : Control.closing p.workers.length = .closing workers := by
      rw [h6, List.length_replicate]
    rw [hq]
    exact ⟨h1, h2, h3, h4, h5, h6, h7, h8, h9, h10, h11, .inr hclosing, .inr hclosing⟩
  · rw [hq]
    exact ⟨h1, h2, h3, h4, h5, h6, h7, h8, h9, h10, h11, .inl rfl, .inl hrunning⟩

variable (setup) (batches : Batches RowIds.Stream) (workers : Nat) (progress : Progress)

/-- A pool that has handed out nothing, with the batches that follow the first ones. -/
def unfilled : Pool σ where
  rest := (batches.take (queuedPerWorker * workers)).2
  tasks := []
  tasksOpen := true
  reports := []
  failures := []
  workers := List.replicate workers .fresh
  lock := none
  cancel := false
  outstanding := []
  tally := .empty setup.configured.length
  progress
  phase := .running
  passed := [.filling]
  dying := []
  control := .atFailures

/-- The pool once the first batches are handed out, one by one. -/
def filled : Pool σ :=
  (batches.take (queuedPerWorker * workers)).1.foldl dispatch
    (unfilled setup batches workers progress)

theorem ofBatches_eq :
    ofBatches setup batches workers progress =
      (filled setup batches workers progress).awaitBatches := by
  -- the channel is open while the first batches are handed out, so none is refused
  have hfold := foldlM_tryDispatch (batches.take (queuedPerWorker * workers)).1
    (p := unfilled setup batches workers progress) rfl
  rw [unfilled] at hfold
  rw [ofBatches]
  dsimp only
  rw [hfold]
  rfl

theorem filled_eq : ∃ outstanding,
    filled setup batches workers progress =
      { unfilled setup batches workers progress with
        outstanding
        tasks := (batches.take (queuedPerWorker * workers)).1.map .batch } ∧
      outstanding.length ≤ (batches.take (queuedPerWorker * workers)).1.length := by
  obtain ⟨outstanding, hfold, hlen⟩ := foldl_dispatch (batches.take (queuedPerWorker * workers)).1
    (unfilled setup batches workers progress)
  refine ⟨outstanding, hfold, ?_⟩
  simpa only [unfilled, List.length_nil, Nat.zero_add] using hlen

/-- The pool before its first move. -/
theorem ofBatches_untouched :
    Untouched setup batches workers progress (ofBatches setup batches workers progress) := by
  obtain ⟨outstanding, hfilled, -⟩ := filled_eq setup batches workers progress
  rw [ofBatches_eq, hfilled]
  exact untouched_awaitBatches
    ⟨rfl, rfl, rfl, rfl, rfl, rfl, rfl, rfl, rfl, rfl, rfl, .inl rfl, .inl rfl⟩ rfl

theorem ofBatches_steered : (ofBatches setup batches workers progress).Steered := by
  obtain ⟨outstanding, hfilled, -⟩ := filled_eq setup batches workers progress
  rw [ofBatches_eq, hfilled]
  exact .awaitBatches rfl rfl rfl

/-- Where the coordinator stands is known in every pool that comes out of a first one. -/
theorem Reaches.steered {setup : Setup σ} {batches : Batches RowIds.Stream} {workers : Nat}
    {progress : Progress} {h : History σ} {p : Pool σ}
    (hp : Reaches setup (ofBatches setup batches workers progress) h p) : p.Steered :=
  hp.invariant (I := fun _ _ p => p.Steered) (ofBatches_steered ..) (fun _ hi _ hm => hi.worker hm)
    (fun _ hi hm => hi.coordinator hm)

/-- No worker is added to a pool or taken from it. -/
theorem Reaches.length_workers {setup : Setup σ} {batches : Batches RowIds.Stream} {workers : Nat}
    {progress : Progress} {h : History σ} {p : Pool σ}
    (hp : Reaches setup (ofBatches setup batches workers progress) h p) :
    p.workers.length = workers := by
  refine hp.invariant (I := fun _ _ p => p.workers.length = workers) ?_ ?_ ?_
  · rw [(ofBatches_untouched setup batches workers progress).staff, List.length_replicate]
  · intro h p q id w s _ hi _ hm
    rw [hm.sameCoordinator.length, hi]
  · intro h p q r _ hi hm
    rw [hm.workers.1, hi]

end SeededRows.Pool
