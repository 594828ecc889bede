/-
  SeededRows.Proofs.Pool.Ends

  How workers end in a run that is not given up. The word that no more batches follow is sent
  only when the pool is drained, so until then no worker winds up; a worker that has ended has
  left a report of it or is known to the coordinator, and only such workers are known. When the
  coordinator goes over to joining, all of them have ended.
-/
import Mathlib.Data.List.Nodup
import Mathlib.Data.List.Range
import SeededRows.Proofs.Engine.Copies
import SeededRows.Proofs.Pool.Start

namespace SeededRows.Pool

variable {σ : Type} {setup : Setup σ} {p q : Pool σ}

/-! ## Stages at the end of a worker -/

/-- The worker has torn its aggregators down and reported it. -/
def Stage.Ended : Stage → Prop
  | leaving | exited .finished _ => True
  | _ => False

/-- The worker was told that no more batches follow, and did not fail since. -/
def Stage.WindsUp : Stage → Prop
  | took (some .done) | finishing | leaving | exited .finished _ => True
  | _ => False

theorem Stage.Ended.windsUp {stage : Stage} (h : stage.Ended) : stage.WindsUp := by
  unfold Stage.Ended at h
  split at h
  · trivial
  · trivial
  · exact h.elim

theorem Stage.Ended.finished {stage : Stage} {exit : WorkerExit} (h : stage.Ended)
    (he : stage.exit? = some exit) : exit = .finished := by
  unfold Stage.Ended at h
  split at h
  · cases he
  · exact (Option.some.inj he).symm
  · exact h.elim

/-! ## Reports of ends -/

/-- What is known of the ends of workers, as long as the run is not given up. -/
structure Ends (p : Pool σ) : Prop where
  /-- Before the pool is drained nothing says that no more batches follow. -/
  unsaid : p.phase = .running → Task.done ∉ p.tasks
  early : p.phase = .running → ∀ {id : Nat} {w : Worker σ}, p.workers[id]? = some w → ¬ w.stage.WindsUp
  reported : ∀ {id : Nat} {w : Worker σ}, p.workers[id]? = some w → w.stage.Ended →
    id ∈ p.dying ∨ .dying id ∈ p.reports
  known : ∀ {id : Nat}, id ∈ p.dying ∨ .dying id ∈ p.reports →
    ∃ w, p.workers[id]? = some w ∧ w.stage.Ended
  once : p.dying.Nodup

/-- A worker that has ended stays so. -/
theorem WorkerMove.ended {id : Nat} {w v : Worker σ} {s : Option Stop}
    (hw : p.workers[id]? = some w) (hm : WorkerMove setup p id w s q)
    (hv : q.workers[id]? = some v) (hended : w.stage.Ended) : v.stage.Ended := by
  cases hm with
  | leaves =>
    cases (getElem?_set_of_some hw _).symm.trans hv
    trivial
  | _ => simp_all [Stage.Ended]

/-- The workers that a move of a worker adds to those that have ended report it. -/
theorem WorkerMove.ends {id : Nat} {w v : Worker σ} {s : Option Stop}
    (hw : p.workers[id]? = some w) (hm : WorkerMove setup p id w s q)
    (hv : q.workers[id]? = some v) (hended : v.stage.Ended) :
    w.stage.Ended ∨ Report.dying id ∈ q.reports := by
  cases hm with
  | leaves at_stage => exact .inl (by rw [at_stage]; trivial)
  | finishes => exact .inr (List.mem_append_right _ List.mem_cons_self)
  | _ =>
    -- in every other case the worker comes to a stage in which it has not ended
    cases (getElem?_set_of_some hw _).symm.trans hv
    first | exact hended.elim | exact .inl hended

/-- A report of an end comes from a worker that has ended. -/
theorem WorkerMove.dying_sent {id j : Nat} {w : Worker σ} {s : Option Stop}
    (hw : p.workers[id]? = some w) (hm : WorkerMove setup p id w s q) (hj : .dying j ∈ q.reports) :
    .dying j ∈ p.reports ∨ j = id ∧ ∃ v, q.workers[id]? = some v ∧ v.stage.Ended := by
  cases hm with
  | finishes =>
    rcases List.mem_append.mp hj with hj | hj
    · exact .inl hj
    · rw [List.mem_singleton] at hj
      cases hj
      exact .inr ⟨rfl, _, getElem?_set_of_some hw _, trivial⟩
  | reports =>
    rcases List.mem_append.mp hj with hj | hj
    · exact .inl hj
    · rw [List.mem_singleton] at hj
      cases hj
  | _ => exact .inl hj

/-- A worker begins to wind up only when it takes the word that no more batches follow. -/
theorem WorkerMove.windingUp {id : Nat} {w v : Worker σ} {s : Option Stop}
    (hw : p.workers[id]? = some w) (hm : WorkerMove setup p id w s q)
    (hv : q.workers[id]? = some v) (hwinds : v.stage.WindsUp) :
    w.stage.WindsUp ∨ .done ∈ p.tasks := by
  cases hm with
  | @takes task tasks at_stage queued =>
    cases (getElem?_set_of_some hw _).symm.trans hv
    cases task with
    | batch b => exact hwinds.elim
    | done => exact .inr (by rw [queued]; exact List.mem_cons_self)
  | windsUp at_stage => exact .inl (by rw [at_stage]; trivial)
  | finishes at_stage => exact .inl (by rw [at_stage]; trivial)
  | leaves at_stage => exact .inl (by rw [at_stage]; trivial)
  | _ =>
    cases (getElem?_set_of_some hw _).symm.trans hv
    first | exact hwinds.elim | exact .inl hwinds

theorem Ends.worker {id : Nat} {w : Worker σ} {s : Option Stop} (h : p.Ends)
    (hw : p.workers[id]? = some w) (hm : WorkerMove setup p id w s q) : q.Ends := by
  have hs := hm.sameCoordinator
  constructor
  -- workers put no task into the queue, so there is still no word to finish
  · intro hphase hdone
    exact h.unsaid (hs.phase.symm.trans hphase) (hm.tasks_subset hdone)
  · intro hphase j v
    have hphase := hs.phase.symm.trans hphase
    refine hm.forall_workers (P := fun _ v => ¬ v.stage.WindsUp) ?_ (h.early hphase)
    intro v hv hwinds
    rcases hm.windingUp hw hv hwinds with hwinds | hdone
    · exact h.early hphase hw hwinds
    · exact h.unsaid hphase hdone
  -- a worker that has ended in this move reported it in this move
  · rw [hs.dying]
    refine hm.forall_workers ?_ (fun hv hended => (h.reported hv hended).imp_right hm.reports_mono)
    intro v hv hended
    rcases hm.ends hw hv hended with hended | hsent
    · exact (h.reported hw hended).imp_right hm.reports_mono
    · exact .inr hsent
  -- and whoever is known to have ended stays so
  · intro j hj
    rw [hs.dying] at hj
    have hkept (hj : j ∈ p.dying ∨ .dying j ∈ p.reports) :
        ∃ v, q.workers[j]? = some v ∧ v.stage.Ended :=
      hm.persists hw (hm.ended hw) (h.known hj)
    rcases hj with hj | hj
    · exact hkept (.inl hj)
    · rcases hm.dying_sent hw hj with hj | ⟨rfl, hended⟩
      · exact hkept (.inr hj)
      · exact hended
  · rw [hs.dying]
    exact h.once

/-- The coordinator keeps what is known of ends when it only moves reports into its own list. -/
theorem Ends.of_same (h : p.Ends) (hworkers : q.workers = p.workers)
    (hphase : q.phase = .running → p.phase = .running ∧ (.done ∈ q.tasks → .done ∈ p.tasks))
    (hknown : ∀ id, id ∈ q.dying ∨ .dying id ∈ q.reports ↔ id ∈ p.dying ∨ .dying id ∈ p.reports)
    (honce : q.dying.Nodup) : q.Ends := by
  constructor
  · intro hrunning hdone
    exact h.unsaid (hphase hrunning).1 ((hphase hrunning).2 hdone)
  · intro hrunning
    rw [hworkers]
    exact h.early (hphase hrunning).1
  · intro id w hw hended
    rw [hworkers] at hw
    exact (hknown id).mpr (h.reported hw hended)
  · intro id hid
    rw [hworkers]
    exact h.known ((hknown id).mp hid)
  · exact honce

theorem withDying_nodup (worker : Nat) (h : p.dying.Nodup) : (p.withDying worker).Nodup := by
  rw [withDying]
  split
  · exact h
  · rename_i hnot
    exact List.nodup_cons.mpr ⟨fun hmem => hnot (List.contains_iff_mem.mpr hmem), h⟩

theorem Ends.awaitBatches (h : p.Ends) : p.awaitBatches.Ends := by
  rcases p.awaitBatches_cases with ⟨-, hq⟩ | ⟨-, hq⟩
  · rw [hq]
    exact h.of_same rfl (fun hphase => nomatch hphase) (fun _ => .rfl) h.once
  · rw [hq]
    exact h.of_same rfl (fun hphase => ⟨hphase, fun hdone => hdone⟩) (fun _ => .rfl) h.once

theorem Ends.refill {p' : Pool σ} (h : p.Ends) (hp' : p.refill = .ok p') : p'.Ends := by
  rcases refill_cases hp' with ⟨-, rfl⟩ | ⟨b, rest, -, rfl⟩
  · exact h
  · refine h.of_same rfl (fun hphase => ⟨hphase, fun hdone => ?_⟩) (fun _ => .rfl) h.once
    rcases List.mem_append.mp hdone with hdone | hdone
    · exact hdone
    · rw [List.mem_singleton] at hdone
      cases hdone

theorem Ends.coordinator {r : Option Recording} (hsteered : p.Steered) (h : p.Ends)
    (hm : CoordinatorMove p r q) (hgoing : q.cancel = false) : q.Ends := by
  have hsame (hphase : q.phase = p.phase) (htasks : q.tasks = p.tasks)
      (hworkers : q.workers = p.workers) (hdying : q.dying = p.dying)
      (hreports : q.reports = p.reports) : q.Ends := by
    refine h.of_same hworkers ?_ ?_ (hdying ▸ h.once)
    · rw [hphase, htasks]
      exact fun hrunning => ⟨hrunning, fun hdone => hdone⟩
    · rw [hdying, hreports]
      exact fun _ => .rfl
  cases hm with
  | readsFailure | rejects | cannotRefill | findsClosed | missesReport | cannotSend => cases hgoing
  -- the report that is taken is not one of an end
  | @records r reports rows p' at_control sent _ _ _ filled =>
    have hrecorded : (p.recorded reports r rows).Ends := by
      refine h.of_same rfl (fun hphase => ⟨hphase, fun hdone => hdone⟩) ?_ h.once
      intro id
      rw [sent]
      show _ ∨ .dying id ∈ reports ↔ _
      simp only [List.mem_cons, reduceCtorEq, false_or]
      rfl
    exact (hrecorded.refill filled).awaitBatches
  -- the report of an end goes over to those the coordinator knows of
  | @notes worker reports at_control sent draining =>
    have hknown (id : Nat) : id ∈ p.withDying worker ∨ .dying id ∈ reports ↔
        id ∈ p.dying ∨ .dying id ∈ p.reports := by
      rw [mem_withDying, sent, List.mem_cons, Report.dying.injEq]
      tauto
    have hnoted := noteDying_noted { p with reports } worker
    refine h.of_same hnoted.workers ?_ ?_ ?_
    · intro hrunning
      cases draining.symm.trans (hnoted.phase.symm.trans hrunning)
    · rw [hnoted.dying, hnoted.reports]
      exact hknown
    · rw [hnoted.dying]
      exact withDying_nodup worker h.once
  | @sendsDone left at_control =>
    have hdrain := hsteered.ending (.inr ⟨_, at_control⟩)
    exact h.of_same rfl (fun hphase => nomatch hdrain.symm.trans hphase) (fun _ => .rfl) h.once
  | joinsBadly | joins | aborts =>
    exact h.of_same rfl (fun hphase => nomatch hphase) (fun _ => .rfl) h.once
  | _ => exact hsame rfl rfl rfl rfl rfl

theorem ofBatches_ends (setup : Setup σ) (batches : Batches RowIds.Stream) (workers : Nat)
    (progress : Progress) : (ofBatches setup batches workers progress).Ends := by
  have h := ofBatches_untouched setup batches workers progress
  constructor
  · intro _ hdone
    rw [h.tasks, List.mem_map] at hdone
    obtain ⟨b, -, hb⟩ := hdone
    cases hb
  · intro _ id w hw hwinds
    rw [h.fresh hw] at hwinds
    exact hwinds
  · intro id w hw hended
    rw [h.fresh hw] at hended
    exact hended.elim
  · intro id hid
    rw [h.dying, h.reports] at hid
    rcases hid with hid | hid <;> cases hid
  · rw [h.dying]
    exact List.nodup_nil

section

variable {batches : Batches RowIds.Stream} {workers : Nat} {progress : Progress} {h : History σ}

theorem Reaches.ends (hp : Reaches setup (ofBatches setup batches workers progress) h p)
    (hgoing : p.cancel = false) : p.Ends := by
  revert hgoing
  refine hp.invariant (I := fun _ _ p => p.cancel = false → p.Ends) ?_ ?_ ?_
  · intro _
    exact ofBatches_ends setup batches workers progress
  · intro h p q id w s _ hi hw hm hgoing
    exact (hi (hm.sameCoordinator.cancel.symm.trans hgoing)).worker hw hm
  · intro h p q r hp hi hm hgoing
    exact (hi (hm.going hgoing)).coordinator hp.steered hm hgoing

/-- Once the coordinator joins its workers, they have all ended. -/
theorem Reaches.joining_ended (hp : Reaches setup (ofBatches setup batches workers progress) h p)
    (hc : p.control = .joining) {id : Nat} {w : Worker σ} (hw : p.workers[id]? = some w) :
    w.stage.Ended := by
  have hsteered := hp.steered
  have hends := hp.ends (hsteered.going (by rw [hc]; trivial))
  -- the workers known to have ended are different ones, and as many as there are
  have hsubset : p.dying ⊆ List.range p.workers.length := by
    intro j hj
    obtain ⟨v, hv, -⟩ := hends.known (.inl hj)
    exact List.mem_range.mpr (List.getElem?_eq_some_iff.mp hv).1
  have hlength : (List.range p.workers.length).length ≤ p.dying.length := by
    rw [List.length_range]
    exact hsteered.joining hc
  have hperm := (List.subperm_of_subset hends.once hsubset).perm_of_length_le hlength
  have hid : id ∈ p.dying :=
    hperm.mem_iff.mpr (List.mem_range.mpr (List.getElem?_eq_some_iff.mp hw).1)
  obtain ⟨v, hv, hended⟩ := hends.known (.inl hid)
  rw [hw] at hv
  cases hv
  exact hended

end

end SeededRows.Pool
