/-
  SeededRows.Proofs.Pool.Failures

  What becomes of failures in a pool. A worker whose guarded work stops tells what stopped it,
  and nothing else is ever told; as long as the run is not given up, what was told waits for the
  coordinator to read it. So a run in which a worker failed never ends well, a worker that is
  named as the culprit did fail for the reason that is given, and the only words about a broken
  protocol are those about a result channel that closed, once every worker is gone and one failed.
-/
import SeededRows.Proofs.Pool.Delivery
import SeededRows.Proofs.Pool.Ends
import SeededRows.Proofs.Pool.Engines

namespace SeededRows

namespace Pool

variable {σ : Type} {setup : Setup σ} {p q : Pool σ} {batches : Batches RowIds.Stream}
  {workers : Nat} {progress : Progress} {h : History σ}

/-! ## Workers that are gone -/

/-- When the coordinator has returned, every worker is gone. -/
theorem Reaches.returned_exited {start : Pool σ} (hp : Reaches setup start h p)
    (hstart : start.outcome? = none) (hreturned : p.outcome? ≠ none) : p.allExited = true := by
  revert hreturned
  refine hp.invariant (I := fun _ _ p => p.outcome? ≠ none → p.allExited = true) ?_ ?_ ?_
  · exact fun hreturned => absurd hstart hreturned
  · intro h p q id w s _ hi hw hm hreturned
    rw [outcome?, hm.sameCoordinator.control] at hreturned
    -- a worker that moves is not gone
    exact absurd (hi hreturned) (by rw [hm.not_allExited hw]; exact Bool.false_ne_true)
  · intro h p q r _ hi hm hreturned
    rw [hm.allExited_eq]
    cases hm with
    | joinsBadly at_control exited => exact exited
    | joins at_control exited => exact exited
    | aborts at_control exited => exact exited
    | records _ _ _ _ _ filled =>
      rw [outcome?] at hreturned
      rcases (recorded_refill filled).control with hq | hq <;>
        rw [hq] at hreturned <;> exact absurd rfl hreturned
    | @notes worker reports =>
      rw [outcome?] at hreturned
      rcases (noteDying_noted { p with reports } worker).control with hq | hq <;>
        rw [hq] at hreturned <;> exact absurd rfl hreturned
    | _ => exact absurd rfl hreturned

/-! ## Runs that nobody cancelled -/

/-- A worker finds the tasks at an end, or leaves because of it, only in a cancelled run. -/
structure Undisturbed (p : Pool σ) : Prop where
  served : ∀ {id : Nat} {w : Worker σ}, p.workers[id]? = some w → w.stage ≠ .took none
  stayed : ∀ {id : Nat} {w : Worker σ}, p.workers[id]? = some w → w.stage.exit? ≠ some .cancelled

theorem ofBatches_outcome : (ofBatches setup batches workers progress).outcome? = none := by
  rw [outcome?]
  rcases (ofBatches_untouched setup batches workers progress).control with hc | hc <;> rw [hc]

theorem control_of_outcome {outcome : Except RunError Unit} (h : p.outcome? = some outcome) :
    p.control = .returned outcome := by
  rw [outcome?] at h
  split at h
  · rename_i hc
    rw [hc, Option.some.inj h]
  · cases h

/-- No worker waits for tasks once no more can come, unless the run is cancelled. -/
theorem Reaches.open_of_receiving (hp : Reaches setup (ofBatches setup batches workers progress) h p)
    (hgoing : p.cancel = false) {id : Nat} {w : Worker σ} (hw : p.workers[id]? = some w)
    (hstage : w.stage = .receiving) : p.tasksOpen = true := by
  cases hopen : p.tasksOpen with
  | true => rfl
  | false =>
    rcases hp.steered.closed hopen with hc | ⟨error, hc⟩ | ⟨o, hc⟩
    -- a worker that is joined has ended
    · have hended := hp.joining_ended hc hw
      rw [hstage] at hended
      exact hended.elim
    · rw [hp.steered.aborting hc] at hgoing
      cases hgoing
    -- once the coordinator has returned nobody waits
    · have hall := hp.returned_exited ofBatches_outcome (by rw [outcome?, hc]; simp)
      have hexited := List.all_eq_true.mp hall w (List.mem_of_getElem? hw)
      rw [Worker.hasExited, hstage] at hexited
      cases hexited

/-- A worker that sees no cancellation works a batch through or stops. -/
theorem seen_of_cancelled {engine engine' : Engine σ} {entropy : Entropy} {seen : Option Nat}
    {specs : List RowSpec}
    (hsaw : engine.process entropy (seesCancel seen) specs = (.error .cancelled, engine')) :
    seen.isSome := by
  obtain ⟨i, hi⟩ := Engine.process_cancelled (congrArg Prod.fst hsaw)
  cases seen with
  | none => cases hi
  | some first => rfl

theorem Undisturbed.worker {id : Nat} {w : Worker σ} {s : Option Stop} (h : p.Undisturbed)
    (hgoing : p.cancel = false) (hopen : w.stage = .receiving → p.tasksOpen = true)
    (hw : p.workers[id]? = some w) (hm : WorkerMove setup p id w s q) : q.Undisturbed := by
  have hmoved {v : Worker σ} (hv : q.workers[id]? = some v) :
      v.stage ≠ .took none ∧ v.stage.exit? ≠ some .cancelled := by
    cases hm with
    -- the three ways to the end of a cancelled run
    | findsClosed at_stage queued closed =>
      rw [hopen at_stage] at closed
      cases closed
    | isCancelled at_stage cancelled =>
      rw [hgoing] at cancelled
      cases cancelled
    | givesUp at_stage with_engine allowed saw =>
      rw [allowed (seen_of_cancelled saw)] at hgoing
      cases hgoing
    | idles =>
      cases (getElem?_set_of_some hw _).symm.trans hv
      exact ⟨h.served hw, h.stayed hw⟩
    | _ =>
      cases (getElem?_set_of_some hw _).symm.trans hv
      exact ⟨by simp, by simp [Stage.exit?]⟩
  constructor
  · exact hm.forall_workers (fun hv => (hmoved hv).1) h.served
  · exact hm.forall_workers (fun hv => (hmoved hv).2) h.stayed

theorem Reaches.undisturbed (hp : Reaches setup (ofBatches setup batches workers progress) h p)
    (hgoing : p.cancel = false) : p.Undisturbed := by
  revert hgoing
  refine hp.invariant (I := fun _ _ p => p.cancel = false → p.Undisturbed) ?_ ?_ ?_
  · intro _
    have hstart := ofBatches_untouched setup batches workers progress
    constructor
    · intro id w hw
      rw [hstart.fresh hw]
      simp [Worker.fresh]
    · intro id w hw
      rw [hstart.fresh hw]
      simp [Worker.fresh, Stage.exit?]
  · intro h p q id w s hp hi hw hm hgoing
    have hgoing := hm.sameCoordinator.cancel.symm.trans hgoing
    exact (hi hgoing).worker hgoing (hp.open_of_receiving hgoing hw) hw hm
  · intro h p q r _ hi hm hgoing
    obtain ⟨hserved, hstayed⟩ := hi (hm.going hgoing)
    rw [← hm.workers.1] at hserved hstayed
    exact ⟨hserved, hstayed⟩

/-! ## What workers tell -/

/-- The guarded work of the worker has stopped. -/
def Stage.Stopped : Stage → Prop
  | failing .. | cleaning _ | exited .failed _ => True
  | _ => False

/-- The worker has told of its failure. -/
def Stage.Told : Stage → Prop
  | cleaning _ | exited .failed _ => True
  | _ => False

/-- What is told about a worker is what stopped it. -/
def Blames (stops : List (Nat × Stop)) (id : Nat) (info : ErrorInfo) : Prop :=
  ∃ s, (id, s) ∈ stops ∧ info = .ofStop s

theorem Blames.cons {stops : List (Nat × Stop)} {id : Nat} {info : ErrorInfo}
    (h : Blames stops id info) (more : List (Nat × Stop)) : Blames (more ++ stops) id info := by
  obtain ⟨s, hs, rfl⟩ := h
  exact ⟨s, List.mem_append_right _ hs, rfl⟩

/-- The workers whose guarded work has stopped are those that stopped in a move, and what is said
about failures, by the workers that are about to tell them and in what was told, is true of these
moves. -/
structure Blamed (stops : List (Nat × Stop)) (p : Pool σ) : Prop where
  stopped : ∀ {id : Nat} {s : Stop}, (id, s) ∈ stops →
    ∃ w, p.workers[id]? = some w ∧ w.stage.Stopped
  cause : ∀ {id : Nat} {w : Worker σ}, p.workers[id]? = some w → w.stage.Stopped →
    ∃ s, (id, s) ∈ stops
  failing : ∀ {id : Nat} {w : Worker σ}, p.workers[id]? = some w →
    ∀ info held, w.stage = .failing info held → Blames stops id info
  sent : ∀ {id : Nat} {info : ErrorInfo}, (id, info) ∈ p.failures → Blames stops id info

/-- A worker whose guarded work has stopped stays so, and one whose work stops in a move is so
afterwards. -/
theorem WorkerMove.stopped {id : Nat} {w v : Worker σ} {s : Option Stop}
    (hw : p.workers[id]? = some w) (hm : WorkerMove setup p id w s q)
    (hv : q.workers[id]? = some v) (hs : s.isSome ∨ w.stage.Stopped) : v.stage.Stopped := by
  cases hm with
  | cannotBegin | stopsWorking | cannotFinish | tells | cleansUp =>
    cases (getElem?_set_of_some hw _).symm.trans hv
    trivial
  | _ => simp_all [Stage.Stopped]

/-- The guarded work of a worker stops only in a move that something stops. -/
theorem WorkerMove.stopped_cases {id : Nat} {w v : Worker σ} {s : Option Stop}
    (hw : p.workers[id]? = some w) (hm : WorkerMove setup p id w s q)
    (hserved : p.cancel = false → w.stage ≠ .took none) (hv : q.workers[id]? = some v)
    (hstopped : v.stage.Stopped) : s.isSome ∨ w.stage.Stopped := by
  cases hm with
  | cannotBegin | stopsWorking | cannotFinish => exact .inl rfl
  | tells at_stage | cleansUp at_stage =>
    rw [at_stage]
    exact .inr trivial
  | missesEnd at_stage going => exact absurd at_stage (hserved going)
  | _ =>
    cases (getElem?_set_of_some hw _).symm.trans hv
    first | exact .inr hstopped | exact hstopped.elim

/-- What a worker is about to tell is what stopped it. -/
theorem WorkerMove.failing {id : Nat} {w v : Worker σ} {s : Option Stop} {info : ErrorInfo}
    {held : Option Batch} (hw : p.workers[id]? = some w) (hm : WorkerMove setup p id w s q)
    (hserved : p.cancel = false → w.stage ≠ .took none) (hv : q.workers[id]? = some v)
    (hfailing : v.stage = .failing info held) :
    w.stage = .failing info held ∨ ∃ stop, s = some stop ∧ info = .ofStop stop := by
  cases hm with
  | cannotBegin | stopsWorking | cannotFinish =>
    cases (getElem?_set_of_some hw _).symm.trans hv
    cases hfailing
    exact .inr ⟨_, rfl, rfl⟩
  | missesEnd at_stage going => exact absurd at_stage (hserved going)
  | _ =>
    cases (getElem?_set_of_some hw _).symm.trans hv
    first | exact .inl hfailing | cases hfailing

theorem WorkerMove.sent {id : Nat} {w : Worker σ} {s : Option Stop} {e : Nat × ErrorInfo}
    (hm : WorkerMove setup p id w s q) (he : e ∈ q.failures) :
    e ∈ p.failures ∨ e.1 = id ∧ ∃ held, w.stage = .failing e.2 held := by
  cases hm with
  | tells at_stage =>
    rcases List.mem_append.mp he with he | he
    · exact .inl he
    · rw [List.mem_singleton] at he
      subst he
      exact .inr ⟨rfl, _, at_stage⟩
  | _ => exact .inl he

theorem Blamed.worker {stops : List (Nat × Stop)} {id : Nat} {w : Worker σ} {s : Option Stop}
    (h : Blamed stops p) (hserved : p.cancel = false → w.stage ≠ .took none)
    (hw : p.workers[id]? = some w) (hm : WorkerMove setup p id w s q) :
    Blamed ((s.map (id, ·)).toList ++ stops) q := by
  constructor
  -- whoever stopped, now or before, has stopped
  · intro j stop hstop
    rcases List.mem_append.mp hstop with hstop | hstop
    · obtain ⟨stop', hs, hpair⟩ := Option.map_eq_some_iff.mp (Option.mem_toList.mp hstop)
      cases hpair
      obtain ⟨v, hv⟩ := hm.moved hw
      exact ⟨v, hv, hm.stopped hw hv (.inl (by rw [hs]; rfl))⟩
    · exact hm.persists hw (fun hv hstopped => hm.stopped hw hv (.inr hstopped)) (h.stopped hstop)
  -- whoever has stopped did so in a move
  · intro j v
    refine hm.forall_workers (P := fun j v => v.stage.Stopped → ∃ s, (j, s) ∈ _) ?_ ?_
    · intro v hv hstopped
      rcases hm.stopped_cases hw hserved hv hstopped with hs | hbefore
      · obtain ⟨stop, rfl⟩ := Option.isSome_iff_exists.mp hs
        exact ⟨stop, List.mem_cons_self⟩
      · obtain ⟨stop, hstop⟩ := h.cause hw hbefore
        exact ⟨stop, List.mem_append_right _ hstop⟩
    · intro j v hv hstopped
      obtain ⟨stop, hstop⟩ := h.cause hv hstopped
      exact ⟨stop, List.mem_append_right _ hstop⟩
  -- what is about to be told is what stopped the worker
  · intro j v
    refine hm.forall_workers
      (P := fun j v => ∀ info held, v.stage = .failing info held → Blames _ j info) ?_
      (fun hv info held hfailing => (h.failing hv info held hfailing).cons _)
    intro v hv info held hfailing
    rcases hm.failing hw hserved hv hfailing with hfailing | ⟨stop, rfl, rfl⟩
    · exact (h.failing hw info held hfailing).cons _
    · exact ⟨stop, List.mem_cons_self, rfl⟩
  -- and so is what was told
  · intro j info he
    rcases hm.sent he with he | ⟨hid, held, hfailing⟩
    · exact (h.sent he).cons _
    · dsimp only at hid hfailing
      subst hid
      exact (h.failing hw info held hfailing).cons _

theorem Reaches.blamed (hp : Reaches setup (ofBatches setup batches workers progress) h p) :
    Blamed (stops setup h) p := by
  refine hp.invariant (I := fun _ stops p => Blamed stops p) ?_ ?_ ?_
  · have hstart := ofBatches_untouched setup batches workers progress
    constructor
    · intro id s hs
      cases hs
    · intro id w hw hstopped
      rw [hstart.fresh hw] at hstopped
      exact hstopped.elim
    · intro id w hw info held hfailing
      rw [hstart.fresh hw] at hfailing
      cases hfailing
    · intro id info he
      rw [hstart.failures] at he
      cases he
  · intro h p q id w s hp hi hw hm
    exact hi.worker (fun hgoing => (hp.undisturbed hgoing).served hw) hw hm
  · intro h p q r _ hi hm
    obtain ⟨hstopped, hcause, hfailing, hsent⟩ := hi
    rw [← hm.workers.1] at hstopped hcause hfailing
    refine ⟨hstopped, hcause, hfailing, fun he => ?_⟩
    rcases hm.failures_eq with heq | ⟨-, hnil⟩
    · exact hsent (heq ▸ he)
    · rw [hnil] at he
      cases he

/-- As long as nobody gave the run up, what a worker told is still to be read. -/
theorem Reaches.told (hp : Reaches setup (ofBatches setup batches workers progress) h p)
    (hgoing : p.cancel = false) {id : Nat} {w : Worker σ} (hw : p.workers[id]? = some w)
    (htold : w.stage.Told) : ∃ info, (id, info) ∈ p.failures := by
  revert id w hgoing
  refine hp.invariant (I := fun _ _ p => p.cancel = false → ∀ {id : Nat} {w : Worker σ},
    p.workers[id]? = some w → w.stage.Told → ∃ info, (id, info) ∈ p.failures) ?_ ?_ ?_
  · intro _ id w hw htold
    rw [(ofBatches_untouched setup batches workers progress).fresh hw] at htold
    exact htold.elim
  · intro h p q id w s _ hi hw hm hgoing
    have hi {j : Nat} {v : Worker σ} := @hi (hm.sameCoordinator.cancel.symm.trans hgoing) j v
    intro j v
    refine hm.forall_workers
      (P := fun j v => v.stage.Told → ∃ info, (j, info) ∈ q.failures) ?_ ?_
    · intro v hv htold
      cases hm with
      | tells => exact ⟨_, List.mem_append_right _ List.mem_cons_self⟩
      | cleansUp at_stage => exact hi hw (by rw [at_stage]; trivial)
      | idles =>
        cases (getElem?_set_of_some hw _).symm.trans hv
        exact hi hw htold
      | _ =>
        cases (getElem?_set_of_some hw _).symm.trans hv
        exact htold.elim
    · intro j v hv htold
      obtain ⟨info, he⟩ := hi hv htold
      exact ⟨info, hm.failures_mono he⟩
  · intro h p q r _ hi hm hgoing id w hw htold
    rw [hm.workers.1] at hw
    obtain ⟨info, he⟩ := hi (hm.going hgoing) hw htold
    -- the coordinator reads it only to give the run up
    rcases hm.failures_eq with heq | ⟨hcancel, -⟩
    · exact ⟨info, heq ▸ he⟩
    · rw [hcancel] at hgoing
      cases hgoing

/-- A worker that is gone failed or ended as it should, unless the run was cancelled. -/
theorem Undisturbed.exited (h : p.Undisturbed) {id : Nat} {w : Worker σ}
    (hw : p.workers[id]? = some w) (hexited : w.hasExited = true) :
    w.stage.Told ∧ w.stage.exit? = some .failed ∨ w.stage.Ended := by
  have hstayed := h.stayed hw
  rw [Worker.hasExited] at hexited
  cases hs : w.stage with
  | exited exit held =>
    cases exit with
    | finished => exact .inr trivial
    | failed => exact .inl ⟨trivial, rfl⟩
    | cancelled => exact absurd (by rw [hs]; rfl) hstayed
  | _ =>
    rw [hs] at hexited
    cases hexited

/-! ## Looking after workers that stopped -/

/-- The workers that the coordinator found gone are gone, and once it saw that they told of no
failure, there are reports of their ends. -/
structure Checked (p : Pool σ) : Prop where
  gone : ∀ {stopped}, p.control = .checking stopped → ∀ id ∈ stopped,
    id ∉ p.dying ∧ ∃ w, p.workers[id]? = some w ∧ w.hasExited = true
  reported : ∀ {stopped}, p.control = .checkingReports stopped → ∀ id ∈ stopped,
    .dying id ∈ p.reports

theorem Checked.of_control (hchecking : ∀ stopped, p.control ≠ .checking stopped)
    (hreports : ∀ stopped, p.control ≠ .checkingReports stopped) : p.Checked :=
  ⟨fun hc => absurd hc (hchecking _), fun hc => absurd hc (hreports _)⟩

theorem Checked.worker {id : Nat} {w : Worker σ} {s : Option Stop} (h : p.Checked)
    (hw : p.workers[id]? = some w) (hm : WorkerMove setup p id w s q) : q.Checked := by
  have hs := hm.sameCoordinator
  constructor
  · intro stopped hc j hj
    obtain ⟨hdying, hgone⟩ := h.gone (hs.control.symm.trans hc) j hj
    rw [hs.dying]
    refine ⟨hdying, hm.persists hw ?_ hgone⟩
    -- a worker that is gone is not the one that moved
    intro v _ hexited
    rw [hm.not_exited] at hexited
    cases hexited
  · intro stopped hc j hj
    exact hm.reports_mono (h.reported (hs.control.symm.trans hc) j hj)

theorem mem_stopped {id : Nat} (h : id ∈ p.stopped) :
    id ∉ p.dying ∧ ∃ w, p.workers[id]? = some w ∧ w.hasExited = true := by
  rw [stopped, List.mem_filter, Bool.and_eq_true] at h
  obtain ⟨-, hexited, hdying⟩ := h
  refine ⟨?_, ?_⟩
  · intro hmem
    rw [List.contains_iff_mem.mpr hmem] at hdying
    cases hdying
  · cases hw : p.workers[id]? with
    | none =>
      rw [hw] at hexited
      cases hexited
    | some w =>
      rw [hw] at hexited
      exact ⟨w, rfl, hexited⟩

theorem Reaches.checked (hp : Reaches setup (ofBatches setup batches workers progress) h p) :
    p.Checked := by
  refine hp.invariant (I := fun _ _ p => p.Checked) ?_ ?_ ?_
  · rcases (ofBatches_untouched setup batches workers progress).control with hc | hc
    · exact .of_control (by simp [hc]) (by simp [hc])
    · exact .of_control (by simp [hc]) (by simp [hc])
  · exact fun _ hi hw hm => hi.worker hw hm
  · intro h p q r hp hi hm
    cases hm with
    | checks at_control =>
      constructor
      · intro stopped hc id hid
        cases hc
        exact mem_stopped hid
      · intro stopped hc
        cases hc
    | @findsNoFailure stopped at_control sent =>
      have hgoing := hp.steered.going (by rw [at_control]; trivial)
      constructor
      · intro stopped hc
        cases hc
      · intro stopped hc id hid
        cases hc
        obtain ⟨hdying, w, hw, hexited⟩ := hi.gone at_control id hid
        -- gone workers told of a failure or reported an end, and there is no failure
        rcases (hp.undisturbed hgoing).exited hw hexited with ⟨htold, -⟩ | hended
        · obtain ⟨info, he⟩ := hp.told hgoing hw htold
          rw [sent] at he
          cases he
        · exact ((hp.ends hgoing).reported hw hended).resolve_left hdying
    | records _ _ _ _ _ filled =>
      rcases (recorded_refill filled).control with hq | hq <;>
        exact .of_control (by simp [hq]) (by simp [hq])
    | @notes worker reports =>
      rcases (noteDying_noted { p with reports } worker).control with hq | hq <;>
        exact .of_control (by simp [hq]) (by simp [hq])
    | _ => exact .of_control (by simp [abort]) (by simp [abort])

/-! ## The verdict -/

/-- The error that the coordinator gives the run up for, or that it returned. -/
def verdict? (p : Pool σ) : Option RunError :=
  match p.control with
  | .aborting error => some error
  | .returned (.error error) => some error
  | _ => none

/-- What must have happened for a run to end with an error. -/
def Justified (stops : List (Nat × Stop)) (p : Pool σ) : RunError → Prop
  | .workerFailure id info => Blames stops id info
  | .protocol violation =>
    (violation = .reportsClosedEarly ∨ violation = .reportsClosedBeforeFinish) ∧
      p.allExited = true ∧ ∃ w ∈ p.workers, w.stage.exit? = some .failed
  | _ => False

/-- When all workers are gone and nothing of what was awaited is left to read, one has failed. -/
theorem Reaches.exists_failed (hp : Reaches setup (ofBatches setup batches workers progress) h p)
    (hworkers : 0 < workers) (hc : p.control = .atReports) (hsent : p.reports = [])
    (hall : p.allExited = true) : ∃ w ∈ p.workers, w.stage.exit? = some .failed := by
  have hpolls : p.control.Polls := by rw [hc]; trivial
  have hsteered := hp.steered
  have hgoing := hsteered.going hpolls.live
  have hends := hp.ends hgoing
  by_contra hnone
  -- nobody failed, so all have ended
  have hended {id : Nat} {w : Worker σ} (hw : p.workers[id]? = some w) : w.stage.Ended := by
    have hmem := List.mem_of_getElem? hw
    rcases (hp.undisturbed hgoing).exited hw (List.all_eq_true.mp hall w hmem) with ⟨-, hf⟩ | he
    · exact absurd ⟨w, hmem, hf⟩ hnone
    · exact he
  rcases hsteered.polling hpolls with hrunning | hdraining
  -- before the pool is drained nobody ends
  · have hlt : 0 < p.workers.length := hp.length_workers.symm ▸ hworkers
    have hw : p.workers[0]? = some p.workers[0] := List.getElem?_eq_getElem hlt
    exact hends.early hrunning hw (hended hw).windsUp
  · -- the coordinator has heard of every worker's end, so it would not wait for one
    have hsubset : List.range p.workers.length ⊆ p.dying := by
      intro id hid
      have hw := List.getElem?_eq_getElem (List.mem_range.mp hid)
      rcases hends.reported hw (hended hw) with hdying | hreport
      · exact hdying
      · rw [hsent] at hreport
        cases hreport
    have hle := (List.subperm_of_subset List.nodup_range hsubset).length_le
    rw [List.length_range] at hle
    exact absurd (hsteered.missing hpolls hdraining) (Nat.not_lt.mpr hle)

variable {all : List Batch}

/-- Every report that is read is one that the coordinator waits for. -/
theorem Reaches.expected (hp : Reaches setup (ofBatches setup batches workers progress) h p)
    (hload : Workload batches workers progress all) (hc : p.control = .atReports) {r : Report}
    (hr : r ∈ p.reports) (violation : Violation) : ¬ Unexpected p r violation := by
  have hpolls : p.control.Polls := by rw [hc]; trivial
  have hgoing := hp.steered.going hpolls.live
  obtain ⟨unpulled, hkept⟩ := hp.kept hload hgoing
  have hkeys := hkept.account.keys
  intro hwrong
  cases hwrong with
  -- nothing is outstanding in a pool that is drained, and so nothing under way
  | @whileDraining id worker results draining =>
    have hreported : id ∈ p.underway :=
      List.mem_append_right _ (List.mem_filterMap.mpr ⟨_, hr, rfl⟩)
    rw [hp.steered.emptied hgoing (.inl draining)] at hkeys
    exact List.not_mem_nil (hkeys.mem_iff.mpr hreported)
  -- what is reported is under way, and so outstanding
  | @notOutstanding id worker results absent =>
    have hreported : id ∈ p.underway :=
      List.mem_append_right _ (List.mem_filterMap.mpr ⟨_, hr, rfl⟩)
    obtain ⟨e, he, heq⟩ := List.mem_map.mp (hkeys.mem_iff.mpr hreported)
    exact bne_iff_ne.mp (List.lookup_eq_none_iff.mp absent e he) heq.symm
  -- a report brings an accumulator for each aggregator, and so does the tally
  | miscounted wrong =>
    have htally : p.tally.length = setup.configured.length := by
      rw [hp.tallied.tally, length_tallyOf hp.tallied.counted]
    exact wrong ((hp.equipped.results hr).trans htally.symm)
  -- whoever reported its end was told to finish
  | early running =>
    obtain ⟨w, hw, hended⟩ := (hp.ends hgoing).known (.inr hr)
    exact (hp.ends hgoing).early ((hp.steered.polling hpolls).resolve_right running) hw
      hended.windsUp

theorem Reaches.abnormal_none (hp : Reaches setup (ofBatches setup batches workers progress) h p)
    (hc : p.control = .joining) : p.abnormalExit? = none := by
  rw [abnormalExit?, List.findSome?_eq_none_iff]
  rintro ⟨w, id⟩ hmem
  have hw : p.workers[id]? = some w := by
    have hget := List.mem_zipIdx_iff_getElem?.mp hmem
    exact hget
  have hended := hp.joining_ended hc hw
  dsimp only
  cases he : w.stage.exit? with
  | none => rfl
  | some exit =>
    dsimp only
    rw [if_pos (hended.finished he)]

/-- A run ends with an error only for a good reason. -/
theorem Reaches.justified (hp : Reaches setup (ofBatches setup batches workers progress) h p)
    (hload : Workload batches workers progress all) {error : RunError} (herror : p.verdict? = some error) :
    Justified (stops setup h) p error := by
  revert error
  refine hp.invariant (I := fun _ stops p => ∀ {error : RunError}, p.verdict? = some error →
    Justified stops p error) ?_ ?_ ?_
  · intro error herror
    rw [verdict?] at herror
    rcases (ofBatches_untouched setup batches workers progress).control with hc | hc <;>
      rw [hc] at herror <;> cases herror
  · intro h p q id w s _ hi hw hm error herror
    rw [verdict?, hm.sameCoordinator.control] at herror
    have hjust := hi herror
    cases error with
    | workerFailure worker info => exact Blames.cons hjust _
    | protocol violation =>
      have hall := hjust.2.1
      rw [hm.not_allExited hw] at hall
      cases hall
    | _ => exact hjust
  · intro h p q r hp hi hm error herror
    -- an error that was there before stays justified, as no worker changes
    have hbefore (hsame : q.verdict? = p.verdict?) : Justified (stops setup h) q error := by
      have hjust := hi (hsame.symm.trans herror)
      cases error with
      | workerFailure worker info => exact hjust
      | protocol violation => exact ⟨hjust.1, hm.allExited_eq ▸ hjust.2.1, hm.workers.1 ▸ hjust.2.2⟩
      | _ => exact hjust
    cases hm with
    -- a failure is told by the worker that failed
    | readsFailure at_control sent =>
      cases herror
      exact hp.blamed.sent (sent ▸ List.mem_cons_self)
    -- no report is unexpected
    | rejects at_control sent wrong =>
      exact absurd wrong (hp.expected hload at_control (sent ▸ List.mem_cons_self) _)
    -- the results came to an end
    | findsClosed at_control sent exited =>
      cases herror
      refine ⟨?_, exited, hp.exists_failed hload.staffed at_control sent exited⟩
      split
      · exact .inr rfl
      · exact .inl rfl
    | missesReport at_control sent =>
      have hreport := hp.checked.reported at_control _ List.mem_cons_self
      rw [sent] at hreport
      cases hreport
    | joinsBadly at_control exited bad =>
      rw [hp.abnormal_none at_control] at bad
      cases bad
    | aborts at_control => exact hbefore (by rw [verdict?, verdict?, at_control])
    | records _ _ _ _ _ filled =>
      rw [verdict?] at herror
      rcases (recorded_refill filled).control with hq | hq <;> rw [hq] at herror <;> cases herror
    -- as long as the coordinator sends tasks, it can
    | cannotRefill at_control sent counted refused =>
      have hopen := hp.steered.open_of_live (by rw [at_control]; trivial) (by simp [at_control])
      cases refused.symm.trans (refusal_eq_none hopen)
    | cannotSend at_control refused =>
      have hopen := hp.steered.open_of_live (by rw [at_control]; trivial) (by simp [at_control])
      cases refused.symm.trans (refusal_eq_none hopen)
    | @notes worker reports =>
      rw [verdict?] at herror
      rcases (noteDying_noted { p with reports } worker).control with hq | hq <;>
        rw [hq] at herror <;> cases herror
    | _ => cases herror

theorem Stage.exit?_eq_some {stage : Stage} {exit : WorkerExit} (h : stage.exit? = some exit) :
    ∃ held, stage = .exited exit held := by
  cases stage with
  | exited exit' held =>
    cases h
    exact ⟨held, rfl⟩
  | _ => cases h

/-- A pool in which nothing stopped is not given up. -/
theorem Reaches.verdict_of_unstopped
    (hp : Reaches setup (ofBatches setup batches workers progress) h p)
    (hload : Workload batches workers progress all) (hnone : stops setup h = []) :
    p.verdict? = none := by
  rw [← Option.not_isSome_iff_eq_none]
  intro hsome
  obtain ⟨error, herror⟩ := Option.isSome_iff_exists.mp hsome
  have hjust := hp.justified hload herror
  rw [hnone] at hjust
  cases error with
  | workerFailure id info =>
    obtain ⟨s, hs, -⟩ := hjust
    cases hs
  | protocol violation =>
    obtain ⟨-, -, w, hmem, hexit⟩ := hjust
    obtain ⟨id, hw⟩ := List.mem_iff_getElem?.mp hmem
    obtain ⟨held, hstage⟩ := Stage.exit?_eq_some hexit
    obtain ⟨s, hs⟩ := hp.blamed.cause hw (by rw [hstage]; trivial)
    rw [hnone] at hs
    cases hs
  | _ => exact hjust

theorem Steered.cancel_of_verdict (h : p.Steered) (hnone : p.verdict? = none) : p.cancel = false := by
  cases hc : p.cancel with
  | false => rfl
  | true =>
    rw [verdict?] at hnone
    rcases h.cancelled hc with ⟨error, he⟩ | ⟨error, he⟩
    · rw [he] at hnone
      cases hnone
    · rw [he] at hnone
      cases hnone

/-- A pool that returned without an error has workers that ended as they should, and no others. -/
theorem Reaches.returned_ended (hp : Reaches setup (ofBatches setup batches workers progress) h p)
    (hc : p.control = .returned (.ok ())) {id : Nat} {w : Worker σ} (hw : p.workers[id]? = some w) :
    w.stage.Ended := by
  revert id w hc
  refine hp.invariant (I := fun _ _ p => p.control = .returned (.ok ()) → ∀ {id : Nat}
    {w : Worker σ}, p.workers[id]? = some w → w.stage.Ended) ?_ ?_ ?_
  · intro hc
    rcases (ofBatches_untouched setup batches workers progress).control with hc' | hc' <;>
      rw [hc'] at hc <;> cases hc
  · intro h p q id w s hp _ hw hm hc
    have hall := hp.returned_exited ofBatches_outcome
      (by rw [outcome?, ← hm.sameCoordinator.control, hc]; simp)
    rw [hm.not_allExited hw] at hall
    cases hall
  · intro h p q r hp _ hm hc id w hw
    rw [hm.workers.1] at hw
    cases hm with
    | joins at_control => exact hp.joining_ended at_control hw
    | records _ _ _ _ _ filled =>
      rcases (recorded_refill filled).control with hq | hq <;> rw [hq] at hc <;> cases hc
    | @notes worker reports =>
      rcases (noteDying_noted { p with reports } worker).control with hq | hq <;>
        rw [hq] at hc <;> cases hc
    | _ => cases hc

/-- A worker that stopped and is gone is gone as one that failed. -/
theorem Stage.Stopped.failed {w : Worker σ} (h : w.stage.Stopped) (hexited : w.hasExited = true) :
    w.stage.exit? = some .failed := by
  rw [Worker.hasExited] at hexited
  unfold Stage.Stopped at h
  split at h
  · rename_i hs
    rw [hs] at hexited
    cases hexited
  · rename_i hs
    rw [hs] at hexited
    cases hexited
  · rename_i hs
    rw [hs]
    rfl
  · exact h.elim

theorem Stage.Stopped.not_ended {stage : Stage} (h : stage.Stopped) : ¬ stage.Ended := by
  unfold Stage.Stopped at h
  split at h
  · exact False.elim
  · exact False.elim
  · exact False.elim
  · exact h.elim

end Pool

/-! ## Runs of validated coordinators -/

namespace Coordinator

variable {σ : Type} {settings : Settings} {order : FieldOrder} {configured : List (Copy σ)}
  {c : Coordinator σ} {ids : Random.Source} {rows : RowIds.Stream} {entropy : Entropy}
  {settle : Pool.Settling σ} {h : Pool.History σ} {p : Pool σ}

/-- How the run of a pool ends, by what the coordinator of the pool returned. -/
theorem ending_ofPool (c : Coordinator σ) (p : Pool σ) : (c.ofPool p).ending =
    match p.outcome? with
    | none => .unfinished
    | some (.error error) => .failed error
    | some (.ok ()) => reduced (Copies.reduce c.configured p.tally).1 := by
  rw [ofPool]
  rcases p.outcome? with _ | _ | ⟨⟩ <;> rfl

/-- A final reduction fails with a fault of the library only. -/
theorem reduced_ne_failed (r : Except Stop Results) {error : RunError}
    (herror : ∀ f, error ≠ .fault f) : reduced r ≠ .failed error := by
  rcases r with (f | crash) | results
  · intro h
    exact herror f (Ending.failed.inj h).symm
  · exact fun h => nomatch h
  · exact fun h => nomatch h

theorem reduced_ne_unfinished (r : Except Stop Results) : reduced r ≠ .unfinished := by
  rcases r with (f | crash) | results
  · exact fun h => nomatch h
  · exact fun h => nomatch h
  · exact fun h => nomatch h

/-- The error of a failed run is the one its pool returned, unless the final reduction failed. -/
theorem verdict_of_failed {error : RunError} (herror : ∀ f, error ≠ .fault f)
    (h : (c.ofPool p).ending = .failed error) : p.verdict? = some error := by
  rw [ending_ofPool] at h
  cases ho : p.outcome? with
  | none =>
    rw [ho] at h
    cases h
  | some outcome =>
    rw [ho] at h
    cases outcome with
    | ok u => exact absurd h (reduced_ne_failed _ herror)
    | error error' =>
      cases h
      rw [Pool.verdict?, Pool.control_of_outcome ho]

/-- A failure of a worker, in making its engine, in working on a batch or in tearing its
aggregators down, keeps the run from ending well. A worker that is named as the reason did fail,
and what is told of it is what stopped it: a fault with its kind, its wording and itself as the
cause, or a crash. The only words about a broken protocol are that the results came to an end too
early, and then every worker is gone and one of them failed; the coordinator does not give a run up
for any other violation. -/
theorem failures_propagate (hc : ofSettings settings order configured = .ok c)
    (hworkers : 2 ≤ settings.workers) (hrows : settings.rowStream ids = .ok rows)
    (hp : Pool.Reaches (c.setup entropy settle) (c.pool entropy settle rows) h p) :
    (Pool.stops (c.setup entropy settle) h ≠ [] →
      ∀ results, (c.ofPool p).ending ≠ .finished results) ∧
    (∀ worker info, (c.ofPool p).ending = .failed (.workerFailure worker info) →
      ∃ stop, (worker, stop) ∈ Pool.stops (c.setup entropy settle) h ∧
        (∃ w, p.workers[worker]? = some w ∧ w.stage.exit? = some .failed) ∧
        match stop with
        | .fault f => info.kind = f.kind ∧ info.message = f.message ∧ info.cause = some f
        | .crash crash =>
          info.kind = "panic" ∧ info.message = crash.message ∧ info.cause = none) ∧
    (∀ violation, (c.ofPool p).ending = .failed (.protocol violation) ∨
        p.control = .aborting (.protocol violation) →
      (violation = .reportsClosedEarly ∨ violation = .reportsClosedBeforeFinish) ∧
        (∀ w ∈ p.workers, w.hasExited = true) ∧
        ∃ w ∈ p.workers, w.stage.exit? = some .failed) := by
  obtain ⟨-, -, rfl⟩ := ofSettings_eq_ok hc
  obtain ⟨all, hload, -⟩ := workload_of_run hrows (Nat.lt_of_lt_of_le Nat.two_pos hworkers)
  have hjustified {error : RunError} (herror : p.verdict? = some error) :=
    hp.justified hload herror
  refine ⟨?_, ?_, ?_⟩
  -- a run that ended well has workers that ended as they should only
  · intro hstops results hfinished
    rw [ending_ofPool] at hfinished
    have hreturned : p.control = .returned (.ok ()) := by
      cases ho : p.outcome? with
      | none =>
        rw [ho] at hfinished
        cases hfinished
      | some outcome =>
        rw [ho] at hfinished
        rcases outcome with error | ⟨⟩
        · cases hfinished
        · exact Pool.control_of_outcome ho
    obtain ⟨⟨worker, stop⟩, hstop⟩ := List.exists_mem_of_ne_nil _ hstops
    obtain ⟨w, hw, hstopped⟩ := hp.blamed.stopped hstop
    exact hstopped.not_ended (hp.returned_ended hreturned hw)
  -- the culprit stopped in a move, and is gone when the coordinator returns
  · intro worker info hfailed
    have hverdict := verdict_of_failed (fun f => by simp) hfailed
    obtain ⟨stop, hstop, rfl⟩ := hjustified hverdict
    refine ⟨stop, hstop, ?_, ?_⟩
    · obtain ⟨w, hw, hstopped⟩ := hp.blamed.stopped hstop
      refine ⟨w, hw, ?_⟩
      -- the run has returned, so the worker is gone
      have hall : p.allExited = true := by
        refine hp.returned_exited Pool.ofBatches_outcome ?_
        intro hnone
        rw [ending_ofPool, hnone] at hfailed
        cases hfailed
      have hexited := List.all_eq_true.mp hall w (List.mem_of_getElem? hw)
      exact hstopped.failed hexited
    · cases stop with
      | fault f => exact ⟨rfl, rfl, rfl⟩
      | crash crash => exact ⟨rfl, rfl, rfl⟩
  -- a violation is the end of the results
  · intro violation hviolation
    have hverdict : p.verdict? = some (.protocol violation) := by
      rcases hviolation with hfailed | hc
      · exact verdict_of_failed (fun f => by simp) hfailed
      · rw [Pool.verdict?, hc]
    obtain ⟨hwhich, hall, hfailed⟩ := hjustified hverdict
    exact ⟨hwhich, List.all_eq_true.mp hall, hfailed⟩

/-- Copies of a counter that crashes when it is set up. -/
def crashing : List (Copy Unit) :=
  [.fresh { Aggregator.count Unit with start := Hook.crash ⟨some "no room"⟩ } ()]

/-- The first worker of a pair is told to have failed, and it did. -/
theorem failures_propagate_pair : ∃ h stop,
    Pool.Reaches (pairSetup crashing) (pairPool crashing 0) h (pairPool crashing 11) ∧
      ((pair crashing).ofPool (pairPool crashing 11)).ending =
        .failed (.workerFailure 0 (.ofStop (.crash ⟨some "no room"⟩))) ∧
      (0, stop) ∈ Pool.stops (pairSetup crashing) h := by
  obtain ⟨h, hp⟩ := pair_reaches crashing 11
  have hc : ofSettings pairSettings .empty crashing = .ok (pair crashing) := rfl
  have hfailed : ((pair crashing).ofPool (pairPool crashing 11)).ending =
      .failed (.workerFailure 0 (.ofStop (.crash ⟨some "no room"⟩))) := rfl
  obtain ⟨stop, hstop, -⟩ :=
    (failures_propagate hc (by decide) pairSettings_rowStream hp).2.1 _ _ hfailed
  exact ⟨h, stop, hp, hfailed, hstop⟩

end Coordinator

end SeededRows
