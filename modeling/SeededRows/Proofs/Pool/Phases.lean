/-
  SeededRows.Proofs.Pool.Phases

  The phases of a pool. A pool runs until every batch is back and none is to come; only then it is
  drained, and the last phase is entered when the coordinator returns. If it gives the run up it may
  skip the drain, but nothing is left outstanding in any case.
-/
import SeededRows.Proofs.Pool.Failures

namespace SeededRows.Pool

variable {σ : Type} {setup : Setup σ} {p q : Pool σ} {batches : Batches RowIds.Stream}
  {workers : Nat} {progress : Progress} {all : List Batch} {h : History σ}

/-- The coordinator has not returned. -/
def Control.Running : Control → Prop
  | .returned _ => False
  | _ => True

/-- How far a pool is, with the phases it has passed, the latest first. -/
inductive Staged (p : Pool σ) : Prop
  | running (phase : p.phase = .running) (passed : p.passed = [.filling])
      (going : p.control.Running)
  | draining (phase : p.phase = .draining) (passed : p.passed = [.running, .filling])
      (going : p.control.Running) (empty : p.outstanding = []) (exhausted : p.rest.next? = none)
  | drained (phase : p.phase = .terminated) (passed : p.passed = [.draining, .running, .filling])
      (returned : ∃ outcome, p.control = .returned outcome) (empty : p.outstanding = [])
      (exhausted : p.rest.next? = none)
  | givenUp (phase : p.phase = .terminated) (passed : p.passed = [.running, .filling])
      (returned : ∃ error, p.control = .returned (.error error)) (empty : p.outstanding = [])

namespace Staged

/-- A move that leaves the coordinator where it is in its run, and the batches with it. -/
theorem stays (hp : p.Staged) (hphase : q.phase = p.phase) (hpassed : q.passed = p.passed)
    (hout : q.outstanding = p.outstanding) (hrest : q.rest = p.rest)
    (hcontrol : q.control = p.control ∨ p.control.Running ∧ q.control.Running) : q.Staged := by
  have hgoing (h : p.control.Running) : q.control.Running := by
    rcases hcontrol with hsame | hgo
    · exact hsame ▸ h
    · exact hgo.2
  have hreturned {outcome : Except RunError Unit} (h : p.control = .returned outcome) :
      q.control = .returned outcome := by
    rcases hcontrol with hsame | hgo
    · exact hsame.trans h
    · rw [h] at hgo
      exact hgo.1.elim
  cases hp with
  | running phase passed going =>
    exact .running (hphase.trans phase) (hpassed.trans passed) (hgoing going)
  | draining phase passed going empty exhausted =>
    exact .draining (hphase.trans phase) (hpassed.trans passed) (hgoing going)
      (hout.trans empty) (hrest ▸ exhausted)
  | drained phase passed returned empty exhausted =>
    obtain ⟨outcome, hc⟩ := returned
    exact .drained (hphase.trans phase) (hpassed.trans passed) ⟨outcome, hreturned hc⟩
      (hout.trans empty) (hrest ▸ exhausted)
  | givenUp phase passed returned empty =>
    obtain ⟨error, hc⟩ := returned
    exact .givenUp (hphase.trans phase) (hpassed.trans passed) ⟨error, hreturned hc⟩
      (hout.trans empty)

/-- Going on to wait for batches; if none is outstanding, none is to come either. -/
theorem awaitBatches (hphase : p.phase = .running) (hpassed : p.passed = [.filling])
    (hrest : p.outstanding = [] → p.rest.next? = none) : p.awaitBatches.Staged := by
  rcases p.awaitBatches_cases with ⟨hout, hq⟩ | ⟨-, hq⟩
  · have hphases : p.phase :: p.passed = [.running, .filling] := by rw [hphase, hpassed]
    rw [hq]
    exact .draining rfl hphases trivial hout (hrest hout)
  · rw [hq]
    exact .running hphase hpassed trivial

/-- While the coordinator goes on, it fills the pool or drains it. -/
theorem cases_of_running (hp : p.Staged) (hgoing : p.control.Running) :
    (p.phase = .running ∧ p.passed = [.filling]) ∨
      (p.phase = .draining ∧ p.passed = [.running, .filling] ∧ p.outstanding = [] ∧
        p.rest.next? = none) := by
  cases hp with
  | running phase passed => exact .inl ⟨phase, passed⟩
  | draining phase passed _ empty exhausted => exact .inr ⟨phase, passed, empty, exhausted⟩
  | drained _ _ returned =>
    obtain ⟨outcome, hc⟩ := returned
    rw [hc] at hgoing
    exact hgoing.elim
  | givenUp _ _ returned =>
    obtain ⟨error, hc⟩ := returned
    rw [hc] at hgoing
    exact hgoing.elim

/-- Returning after the drain. -/
theorem returns (hp : p.Staged) (hgoing : p.control.Running) (hdraining : p.phase = .draining)
    (outcome : Except RunError Unit) :
    ({ p.enter .terminated with control := .returned outcome } : Pool σ).Staged := by
  rcases hp.cases_of_running hgoing with ⟨hrunning, -⟩ | ⟨-, hpassed, hout, hrest⟩
  · cases hrunning.symm.trans hdraining
  · have hphases : p.phase :: p.passed = [.draining, .running, .filling] := by
      rw [hdraining, hpassed]
    exact .drained rfl hphases ⟨outcome, rfl⟩ hout hrest

/-- Returning after the run was given up, whether or not the pool was drained by then. -/
theorem givesUp (hp : p.Staged) (hgoing : p.control.Running) (error : RunError) :
    ({ p.enter .terminated with outstanding := [], control := .returned (.error error) } :
      Pool σ).Staged := by
  rcases hp.cases_of_running hgoing with ⟨hrunning, hpassed⟩ | ⟨hdraining, hpassed, -, hrest⟩
  · have hphases : p.phase :: p.passed = [.running, .filling] := by rw [hrunning, hpassed]
    exact .givenUp rfl hphases ⟨error, rfl⟩ rfl
  · have hphases : p.phase :: p.passed = [.draining, .running, .filling] := by
      rw [hdraining, hpassed]
    exact .drained rfl hphases ⟨.error error, rfl⟩ rfl hrest

/-- The pool is drained only when no batch is outstanding and none is to come. -/
theorem of_draining (hp : p.Staged) (h : .draining ∈ p.phases) :
    p.outstanding = [] ∧ p.rest.next? = none := by
  rw [phases, List.mem_reverse] at h
  cases hp with
  | running phase passed | givenUp phase passed =>
    rw [phase, passed] at h
    simp at h
  | draining _ _ _ empty exhausted | drained _ _ _ empty exhausted => exact ⟨empty, exhausted⟩

/-- A pool whose coordinator has returned. -/
theorem of_outcome (hp : p.Staged) (h : p.outcome? ≠ none) :
    p.phase = .terminated ∧ p.outstanding = [] := by
  cases hp with
  | running _ _ going | draining _ _ going =>
    exfalso
    apply h
    cases hc : p.control with
    | returned outcome =>
      rw [hc] at going
      exact going.elim
    | _ => rw [outcome?, hc]
  | drained phase _ _ empty | givenUp phase _ _ empty => exact ⟨phase, empty⟩

end Staged

theorem WorkerMove.passed {id : Nat} {w : Worker σ} {s : Option Stop}
    (hm : WorkerMove setup p id w s q) : q.passed = p.passed := by
  cases hm <;> rfl

/-- What a move of the coordinator makes of the phases. It never has to reject a report, and it can
send tasks as long as it wants to. -/
theorem Staged.coordinator {r : Option Recording} (hp : p.Staged) (hs : p.Steered)
    (hexpected : p.control = .atReports → ∀ {report violation}, report ∈ p.reports →
      ¬ Unexpected p report violation) (hm : CoordinatorMove p r q) : q.Staged := by
  cases hm with
  | rejects at_control sent wrong =>
    exact absurd wrong (hexpected at_control (sent ▸ List.mem_cons_self))
  | cannotRefill at_control _ _ refused =>
    have hopen := hs.open_of_live (by rw [at_control]; trivial) (by simp [at_control])
    cases refused.symm.trans (refusal_eq_none hopen)
  | @records r reports rows p' at_control sent running found counted filled =>
    have hgoing : p.control.Running := by rw [at_control]; trivial
    obtain ⟨hphase, hpassed⟩ := (hp.cases_of_running hgoing).resolve_right fun h => running h.1
    -- if there is another batch, it is outstanding from now on
    rcases refill_cases filled with ⟨hnone, rfl⟩ | ⟨b, rest, -, rfl⟩
    · exact .awaitBatches hphase hpassed fun _ => hnone
    · exact .awaitBatches hphase hpassed fun hout => nomatch hout
  | @notes worker reports at_control =>
    have hgoing : p.control.Running := by rw [at_control]; trivial
    rcases noteDying_cases { p with reports } worker with ⟨-, hq⟩ | ⟨-, hq⟩
    · rw [hq]
      exact hp.stays rfl rfl rfl rfl (.inr ⟨hgoing, trivial⟩)
    · rw [hq]
      exact hp.stays rfl rfl rfl rfl (.inr ⟨hgoing, trivial⟩)
  | joinsBadly at_control | joins at_control =>
    exact hp.returns (by rw [at_control]; trivial) (hs.ending (.inl at_control)) _
  | aborts at_control => exact hp.givesUp (by rw [at_control]; trivial) _
  | readsFailure at_control =>
    have hgoing : p.control.Running := by
      rcases at_control with hc | ⟨stopped, hc⟩
      · rw [hc]
        trivial
      · rw [hc]
        trivial
    exact hp.stays rfl rfl rfl rfl (.inr ⟨hgoing, trivial⟩)
  -- the coordinator goes on
  | seesNoFailure at_control | findsClosed at_control | fallsAsleep at_control | wakes at_control
  | checks at_control | findsNoFailure at_control | missesReport at_control | goesOn at_control
  | waitsForEnds at_control | hasAllEnds at_control | cannotSend at_control
  | sendsDone at_control =>
    exact hp.stays rfl rfl rfl rfl (.inr ⟨by rw [at_control]; trivial, trivial⟩)

theorem ofBatches_staged (setup : Setup σ) (hload : Workload batches workers progress all) :
    (ofBatches setup batches workers progress).Staged := by
  obtain ⟨unpulled, hkept⟩ := ofBatches_kept setup hload
  obtain ⟨outstanding, hfilled, -⟩ := filled_eq setup batches workers progress
  rw [ofBatches_eq] at hkept ⊢
  have hphase : (filled setup batches workers progress).phase = .running := by rw [hfilled]; rfl
  have hpassed : (filled setup batches workers progress).passed = [.filling] := by rw [hfilled]; rfl
  refine .awaitBatches hphase hpassed fun hout => ?_
  rcases (filled setup batches workers progress).awaitBatches_cases with ⟨-, hq⟩ | ⟨hbusy, -⟩
  · rw [hq] at hkept
    obtain rfl : unpulled = [] := hkept.busy hout
    cases hkept.rest with
    | ends hnone => exact hnone
  · exact absurd hout hbusy

/-- The phases of a pool at any time. -/
theorem Reaches.staged (hp : Reaches setup (ofBatches setup batches workers progress) h p)
    (hload : Workload batches workers progress all) : p.Staged := by
  refine hp.invariant (I := fun _ _ p => p.Staged) (ofBatches_staged setup hload) ?_ ?_
  · intro h p q id w s _ hi _ hm
    have hs := hm.sameCoordinator
    exact hi.stays hs.phase hm.passed hs.outstanding hs.rest (.inl hs.control)
  · intro h p q r hp hi hm
    exact hi.coordinator hp.steered (fun hc _ _ hr => hp.expected hload hc hr _) hm

/-- A pool in good order: it is drained only when no batch is outstanding and none is to come, a
coordinator that has returned leaves no batch outstanding, and it returns without an error only when
every worker has finished. -/
structure Orderly (p : Pool σ) : Prop where
  drained : .draining ∈ p.phases → p.outstanding = [] ∧ p.rest.next? = none
  returned : p.outcome? ≠ none → p.phase = .terminated ∧ p.outstanding = []
  joined : p.outcome? = some (.ok ()) → ∀ w ∈ p.workers, w.stage.exit? = some .finished

theorem Reaches.orderly (hp : Reaches setup (ofBatches setup batches workers progress) h p)
    (hload : Workload batches workers progress all) : p.Orderly := by
  have hstaged := hp.staged hload
  refine ⟨hstaged.of_draining, hstaged.of_outcome, ?_⟩
  intro ho w hw
  obtain ⟨id, hid⟩ := List.mem_iff_getElem?.mp hw
  have hall := hp.returned_exited ofBatches_outcome (by simp [ho])
  obtain ⟨exit, hexit⟩ := Option.isSome_iff_exists.mp (List.all_eq_true.mp hall w hw)
  rw [hexit, (hp.returned_ended (control_of_outcome ho) hid).finished hexit]

end SeededRows.Pool
