/-
  SeededRows.Proofs.Coordinator.Starts

  The ways in which a start of a coordinator can go: it is refused, because it was started before,
  because its rows cannot be laid out or because there is no room for its workers; or it runs on the
  calling thread; or it runs on a pool, and then it leaves a pool that comes out of the first one by
  some moves. A theorem on all starts is a case analysis over these.
-/
import SeededRows.Coordinator
import SeededRows.Proofs.Pool.Moves

namespace SeededRows

namespace Coordinator

variable {σ : Type}

/-- The ways in which a start can go. -/
inductive Started (c : Coordinator σ) (ids : Random.Source) (entropy : Entropy)
    (settle : Pool.Settling σ) : Run σ → Prop
  | again (late : c.phase ≠ .filling) : Started c ids entropy settle
      (c.refused (.failed (.fault (.invalidArgument (.alreadyStarted c.phase)))))
  | unlaid {f : Fault} (new : c.phase = .filling) (laid : c.settings.rowStream ids = .error f) :
      Started c ids entropy settle (c.refused (.failed (.fault f)))
  | crowded {rows : RowIds.Stream} (new : c.phase = .filling)
      (laid : c.settings.rowStream ids = .ok rows) (many : c.settings.workers ≠ 1)
      (room : fits c.settings.workers = false) :
      Started c ids entropy settle (c.refused (.crashed ⟨some "capacity overflow"⟩))
  | inline {rows : RowIds.Stream} (new : c.phase = .filling)
      (laid : c.settings.rowStream ids = .ok rows) (one : c.settings.workers = 1) :
      Started c ids entropy settle (c.runInline entropy rows)
  | pooled {rows : RowIds.Stream} {h : Pool.History σ} {p : Pool σ} (new : c.phase = .filling)
      (laid : c.settings.rowStream ids = .ok rows) (many : c.settings.workers ≠ 1)
      (room : fits c.settings.workers = true)
      (reached : Pool.Reaches (c.setup entropy settle) (c.pool entropy settle rows) h p) :
      Started c ids entropy settle (c.ofPool p)

/-- Every start goes in one of these ways. -/
theorem startAmid_started (c : Coordinator σ) (ids : Random.Source) (entropy : Entropy)
    (settle : Pool.Settling σ) (schedule : Nat → Pool.Move) (moves : Nat) :
    c.Started ids entropy settle (c.startAmid ids entropy settle schedule moves) := by
  rw [startAmid]
  by_cases hnew : c.phase = .filling
  · rw [if_pos hnew]
    cases hlaid : c.settings.rowStream ids with
    | error f => exact .unlaid hnew hlaid
    | ok rows =>
      dsimp only
      by_cases hone : c.settings.workers = 1
      · rw [if_pos hone]
        exact .inline hnew hlaid hone
      · rw [if_neg hone, runPool]
        by_cases hroom : fits c.settings.workers = true
        · rw [if_pos hroom]
          obtain ⟨h, hp⟩ : ∃ h, Pool.Reaches (c.setup entropy settle) (c.pool entropy settle rows) h
              ((c.pool entropy settle rows).run (c.setup entropy settle) schedule moves 0) :=
            Pool.Reaches.start.run schedule moves 0
          exact .pooled hnew hlaid hone hroom hp
        · rw [if_neg hroom]
          exact .crowded hnew hlaid hone (Bool.eq_false_iff.mpr hroom)
  · rw [if_neg hnew]
    exact .again hnew

/-- A coordinator that was started before is not started again. -/
theorem Started.of_late {c : Coordinator σ} {ids : Random.Source} {entropy : Entropy}
    {settle : Pool.Settling σ} {run : Run σ} (h : c.Started ids entropy settle run)
    (late : c.phase ≠ .filling) :
    run = c.refused (.failed (.fault (.invalidArgument (.alreadyStarted c.phase)))) := by
  cases h with
  | again => rfl
  | _ new => exact absurd new late

end Coordinator

end SeededRows
