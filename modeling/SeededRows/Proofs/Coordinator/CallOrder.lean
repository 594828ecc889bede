/-
  SeededRows.Proofs.Coordinator.CallOrder

  The order of the calls on the copies of workers, in every run and at every time: on the calling
  thread or on a pool, in whatever order workers and coordinator move, whatever faults or crashes
  there are in whichever hook, and whether or not the run is given up.
-/
import SeededRows.Proofs.Coordinator.Starts
import SeededRows.Proofs.Engine.CallOrder
import SeededRows.Proofs.Pool.Lifecycle

namespace SeededRows

/-- Engines keep to the order of calls. -/
theorem Engine.respects_order {σ : Type} : Engine.Respects (σ := σ) Copies.Going Copies.InOrder where
  made := going_of_start
  unmade := inOrder_of_start
  working entropy cancelled specs h := going_process h entropy cancelled specs
  torn h := Copies.inOrder_finish h none

/-- The copies of a worker, at any time. -/
theorem Pool.Reaches.inOrder {σ : Type} {setup : Setup σ} {batches : Batches RowIds.Stream}
    {workers : Nat} {progress : Progress} {h : History σ} {p : Pool σ}
    (hp : Reaches setup (ofBatches setup batches workers progress) h p) {w : Worker σ}
    (hw : w ∈ p.workers) : Copies.InOrder w.copies := by
  obtain ⟨id, hid⟩ := List.mem_iff_getElem?.mp hw
  rcases (hp.respects Engine.respects_order hid).cases with hnone | hgoing | hover
  · rw [hnone]
    exact Copies.inOrder_nil
  · exact hgoing.inOrder
  · exact hover

namespace Coordinator

variable {σ : Type}

/-- The calls on every copy of every worker: a setup; then, if the setups of all the copies of this
worker returned, work on rows; then a teardown, if the setup of this copy returned. Nothing follows
a teardown, also when it did not return. -/
theorem calls_in_order (c : Coordinator σ) (ids : Random.Source) (entropy : Entropy)
    (settle : Pool.Settling σ) (schedule : Nat → Pool.Move) (moves : Nat) :
    ∀ copies ∈ (c.startAmid ids entropy settle schedule moves).workerCopies,
      (∀ copy ∈ copies, Call.InOrder copy.calls) ∧
      ∀ copy ∈ copies, copy.HasWorked → ∀ other ∈ copies, other.IsSetUp := by
  intro copies hcopies
  suffices h : Copies.InOrder copies from ⟨h.calls, h.together⟩
  have hstarted := c.startAmid_started ids entropy settle schedule moves
  generalize c.startAmid ids entropy settle schedule moves = run at hcopies hstarted
  cases hstarted with
  | again | unlaid | crowded => cases hcopies
  | inline =>
    rw [workerCopies_runInline, List.mem_singleton] at hcopies
    rw [hcopies]
    exact Inline.run_spent Engine.respects_order _ _ _ _ _
  | pooled _ _ _ _ reached =>
    obtain ⟨w, hw, rfl⟩ := List.mem_map.mp hcopies
    exact reached.inOrder hw

/-- The first worker of a pair cannot count its row: its copy was set up, saw the row and was torn
down, in this order. -/
theorem calls_in_order_refusing :
    ∃ copies ∈ ((pair refusing).startAmid (.ofSeed 0) (fun _ => .ofSeed 0) .alike (Pool.rounds 2)
      60).workerCopies, ∃ copy ∈ copies,
        copy.calls.map Call.stage = [.done, .map, .start] ∧ Call.InOrder copy.calls ∧
          ∀ other ∈ copies, other.IsSetUp := by
  have hrun : ((pair refusing).startAmid (.ofSeed 0) (fun _ => .ofSeed 0) .alike (Pool.rounds 2)
      60).workerCopies = (pairPool refusing 60).workers.map Pool.Worker.copies := rfl
  obtain ⟨copy, hfirst, hstages⟩ : ∃ copy : Copy Unit,
      [copy] ∈ (pairPool refusing 60).workers.map Pool.Worker.copies ∧
        copy.calls.map Call.stage = [.done, .map, .start] := ⟨_, List.mem_cons_self, rfl⟩
  have hworked : copy.HasWorked := by
    have hmap : Stage.map ∈ copy.calls.map Call.stage := by simp [hstages]
    obtain ⟨call, hcall, hstage⟩ := List.mem_map.mp hmap
    exact ⟨call, hcall, .inl hstage⟩
  rw [← hrun] at hfirst
  have horder := calls_in_order (pair refusing) (.ofSeed 0) (fun _ => .ofSeed 0) .alike
    (Pool.rounds 2) 60 [copy] hfirst
  have hcopy : copy ∈ [copy] := List.mem_cons_self
  exact ⟨[copy], hfirst, copy, hcopy, hstages, horder.1 copy hcopy, horder.2 copy hcopy hworked⟩

end Coordinator

end SeededRows
