/-
  SeededRows.Proofs.Pool.Shares

  Which worker of a pool worked through which batches. As long as the run is not given up, every
  worker that did not fail has an engine with a history: the batches that it worked through, and what
  it made of them. Put together, these are what is in reports and what was recorded; so when a run
  ended well, the batches are shared out among the workers, and every worker tore its engine down
  after the last batch of its share.
-/
import SeededRows.Proofs.Engine.Sessions
import SeededRows.Proofs.Pool.Digest

namespace SeededRows.Pool

variable {σ : Type} {setup : Setup σ} {p q : Pool σ} {batches : Batches RowIds.Stream}
  {workers : Nat} {progress : Progress} {all : List Batch} {recs : List Recording} {h : History σ}

/-! ## What was made of batches -/

/-- What was made of a batch that is known by its name. -/
abbrev Named := BatchId × List Accumulator

def nameOf (made : WorkedBatch) : Named := (made.batch.id, made.results)

def Report.named? : Report → Option Named
  | .generated id _ results => some (id, results)
  | .dying _ => none

def Recording.named (r : Recording) : Named := (r.id, r.results)

/-- What the reports that were not read bring. -/
def named (p : Pool σ) : List Named := p.reports.filterMap Report.named?

/-- Recording a batch takes it off the reports. -/
theorem CoordinatorMove.named {r : Option Recording} (hm : CoordinatorMove p r q)
    (hgoing : q.cancel = false) : (r.toList.map Recording.named ++ q.named).Perm p.named := by
  cases hm with
  -- a run that is given up is cancelled
  | readsFailure | rejects | cannotRefill | findsClosed | missesReport | cannotSend => cases hgoing
  | @records r reports rows p' at_control sent running found counted filled =>
    have hreports := (recorded_refill filled).reports
    rw [Pool.named, Pool.named, hreports, sent]
    exact .refl _
  | @notes worker reports at_control sent draining =>
    have hreports := (noteDying_noted { p with reports } worker).reports
    rw [Pool.named, Pool.named, hreports, sent]
    exact .refl _
  | _ => exact .refl _

/-! ## Workers with their shares -/

/-- What the engine of a worker has been through that worked through a share of the batches, the
latest first. Nothing is said of a worker that failed or was cancelled. -/
def Worker.HasShare (setup : Setup σ) (id : Nat) (share : List WorkedBatch) (w : Worker σ) : Prop :=
  match w.stage with
  | .spawned => share = []
  | .waiting | .receiving | .took _ | .working _ | .finishing => ∃ engine : Engine σ,
      w.engine = some engine ∧ engine.Session setup.order (setup.given id) setup.entropy share
  | .leaving | .exited .finished _ => ∃ engine engine' : Engine σ, w.engine = some engine' ∧
      engine.Session setup.order (setup.given id) setup.entropy share ∧ engine.done = (.ok (), engine')
  | _ => True

/-- What a move of a worker adds to its share: nothing, or the batch that it has worked through. -/
theorem WorkerMove.share {id : Nat} {w : Worker σ} {s : Option Stop} {share : List WorkedBatch}
    (hm : WorkerMove setup p id w s q) (h : w.HasShare setup id share) :
    ∃ v more, q.workers = p.workers.set id v ∧ v.HasShare setup id (more ++ share) ∧
      q.named = p.named ++ more.map nameOf ∧ ∀ made ∈ more, w.stage = .working made.batch := by
  -- most moves add nothing
  have hsame {v : Worker σ} (hworkers : q.workers = p.workers.set id v)
      (hreports : q.named = p.named) (hv : v.HasShare setup id share) :
      ∃ v more, q.workers = p.workers.set id v ∧ v.HasShare setup id (more ++ share) ∧
        q.named = p.named ++ more.map nameOf ∧ ∀ made ∈ more, w.stage = .working made.batch :=
    ⟨v, [], hworkers, hv, by rw [hreports, List.map_nil, List.append_nil], by simp⟩
  cases hm with
  | begins at_stage made =>
    simp only [Worker.HasShare, at_stage] at h
    exact hsame rfl rfl ⟨_, rfl, h ▸ .made made⟩
  | reports at_stage with_engine allowed worked =>
    simp only [Worker.HasShare, at_stage] at h
    obtain ⟨engine, he, hsession⟩ := h
    cases with_engine.symm.trans he
    refine ⟨_, [⟨_, _⟩], rfl, ⟨_, rfl, hsession.worked worked⟩, ?_, ?_⟩
    · simp only [named, send, setWorker, List.filterMap_append]
      rfl
    · intro made hmade
      rw [List.mem_singleton.mp hmade]
      exact at_stage
  | finishes at_stage torn =>
    simp only [Worker.HasShare, at_stage] at h
    obtain ⟨engine, he, hsession⟩ := h
    rw [Worker.tearDown, he] at torn
    rcases hdone : engine.done with ⟨r, engine'⟩
    simp only [hdone, Prod.mk.injEq] at torn
    obtain ⟨rfl, rfl⟩ := torn
    refine hsame rfl ?_ ⟨engine, engine', rfl, hsession, hdone⟩
    simp only [named, send, setWorker, List.filterMap_append]
    rw [List.filterMap_cons_none rfl, List.filterMap_nil, List.append_nil]
  -- a worker that goes on
  | locks at_stage | takes at_stage | findsClosed at_stage | accepts at_stage | windsUp at_stage
  | leaves at_stage =>
    simp only [Worker.HasShare, at_stage] at h
    exact hsame rfl rfl h
  | idles => exact hsame rfl rfl h
  -- a worker that fails or is cancelled
  | _ => exact hsame rfl rfl trivial

/-- The batches that the workers worked through, worker by worker, as long as the run is not given
up. -/
structure Shared (setup : Setup σ) (all : List Batch) (recs : List Recording)
    (shares : List (List WorkedBatch)) (p : Pool σ) : Prop where
  staffed : shares.length = p.workers.length
  /-- They are in reports, or they were recorded. -/
  told : (shares.flatten.map nameOf).Perm (p.named ++ recs.map Recording.named)
  known : ∀ made ∈ shares.flatten, made.batch ∈ all
  held : ∀ {id : Nat} {w : Worker σ} {share : List WorkedBatch}, p.workers[id]? = some w →
    shares[id]? = some share → w.HasShare setup id share

/-- What is put before one of several lists. -/
theorem flatten_set_perm {α : Type} {lists : List (List α)} {i : Nat} {l : List α}
    (h : lists[i]? = some l) (more : List α) :
    ((lists.set i (more ++ l)).flatten).Perm (more ++ lists.flatten) := by
  induction lists generalizing i with
  | nil => cases h
  | cons first lists ih =>
    cases i with
    | zero =>
      cases h
      rw [List.set_cons_zero, List.flatten_cons, List.flatten_cons, List.append_assoc]
    | succ i =>
      have hrest := (ih h).append_left first
      rw [List.set_cons_succ, List.flatten_cons, List.flatten_cons]
      exact hrest.trans (List.perm_append_comm_assoc first more lists.flatten)

theorem Shared.worker {id : Nat} {w : Worker σ} {s : Option Stop} {shares : List (List WorkedBatch)}
    (h : Shared setup all recs shares p) (hknown : ∀ b, w.stage = .working b → b ∈ all)
    (hw : p.workers[id]? = some w) (hm : WorkerMove setup p id w s q) :
    ∃ shares', Shared setup all recs shares' q := by
  have hid : id < shares.length := h.staffed ▸ (List.getElem?_eq_some_iff.mp hw).1
  have hshare : shares[id]? = some shares[id] := List.getElem?_eq_getElem hid
  obtain ⟨v, more, hworkers, hv, hnamed, hmore⟩ := hm.share (h.held hw hshare)
  have hperm := flatten_set_perm hshare more
  refine ⟨shares.set id (more ++ shares[id]), ?_, ?_, ?_, ?_⟩
  · rw [List.length_set, h.staffed, hworkers, List.length_set]
  · -- the batch that was worked through is in the report that was sent
    have htold := (hperm.map nameOf).trans (.of_eq (List.map_append ..))
    rw [hnamed, List.append_assoc]
    refine htold.trans ((h.told.append_left _).trans ?_)
    exact List.perm_append_comm_assoc ..
  · intro made hmade
    rcases List.mem_append.mp (hperm.mem_iff.mp hmade) with hmade | hmade
    · exact hknown _ (hmore made hmade)
    · exact h.known made hmade
  · intro j w' share' hw' hshare'
    rw [hworkers] at hw'
    rcases eq_or_ne id j with rfl | hne
    · rw [List.getElem?_set_self hid] at hshare'
      cases hshare'
      rw [List.getElem?_set_self (List.getElem?_eq_some_iff.mp hw).1] at hw'
      cases hw'
      exact hv
    · rw [List.getElem?_set_ne hne] at hw' hshare'
      exact h.held hw' hshare'

theorem Shared.coordinator {r : Option Recording} {shares : List (List WorkedBatch)}
    (h : Shared setup all recs shares p) (hm : CoordinatorMove p r q) (hgoing : q.cancel = false) :
    Shared setup all (r.toList ++ recs) shares q := by
  have hnamed := hm.named hgoing
  refine ⟨?_, ?_, h.known, ?_⟩
  · rw [hm.workers.1]
    exact h.staffed
  · refine h.told.trans ((hnamed.symm.append_right _).trans ?_)
    rw [List.map_append, List.append_assoc]
    exact List.perm_append_comm_assoc ..
  · rw [hm.workers.1]
    exact h.held

theorem ofBatches_shared (setup : Setup σ) (batches : Batches RowIds.Stream) (workers : Nat)
    (progress : Progress) : Shared setup all [] (List.replicate workers [])
      (ofBatches setup batches workers progress) := by
  have hstart := ofBatches_untouched setup batches workers progress
  have hnone : (List.replicate workers ([] : List WorkedBatch)).flatten = [] := by simp
  refine ⟨?_, ?_, ?_, ?_⟩
  · rw [hstart.staff, List.length_replicate, List.length_replicate]
  · rw [hnone, named, hstart.reports]
    exact .refl _
  · rw [hnone]
    simp
  · intro id w share hw hshare
    rw [hstart.fresh hw]
    exact List.eq_of_mem_replicate (List.mem_of_getElem? hshare)

/-- The batches that were worked through in a run that is not given up. -/
theorem Reaches.shared (hp : Reaches setup (ofBatches setup batches workers progress) h p)
    (hload : Workload batches workers progress all) (hgoing : p.cancel = false) :
    ∃ shares, Shared setup all (recordings h) shares p := by
  revert hgoing
  refine hp.invariant (I := fun recs _ p => p.cancel = false →
    ∃ shares, Shared setup all recs shares p) ?_ ?_ ?_
  · intro _
    exact ⟨_, ofBatches_shared setup batches workers progress⟩
  · intro h p q id w s hp hi hw hm hgoing
    have hgoing := hm.sameCoordinator.cancel.symm.trans hgoing
    obtain ⟨shares, hshared⟩ := hi hgoing
    obtain ⟨unpulled, hkept⟩ := hp.kept hload hgoing
    exact hshared.worker (fun b hstage => hkept.mem_of_working hw hstage) hw hm
  · intro h p q r _ hi hm hgoing
    obtain ⟨shares, hshared⟩ := hi (hm.going hgoing)
    exact ⟨shares, hshared.coordinator hm hgoing⟩

/-! ## Runs that ended well -/

/-- When a run ended well, the batches were shared out among the workers, what was made of them was
recorded, and every worker was torn down after its share. -/
theorem Reaches.shared_out (hp : Reaches setup (ofBatches setup batches workers progress) h p)
    (hload : Workload batches workers progress all) (hc : p.control = .returned (.ok ())) :
    ∃ shares : List (List WorkedBatch), shares.length = workers ∧
      (shares.flatten.map WorkedBatch.batch).Perm all ∧
      (shares.flatten.map nameOf).Perm ((recordings h).map Recording.named) ∧
      ∀ {id : Nat} {share : List WorkedBatch}, shares[id]? = some share →
        ∃ (w : Worker σ) (engine engine' : Engine σ), p.workers[id]? = some w ∧
          w.copies = engine'.copies ∧
          engine.Session setup.order (setup.given id) setup.entropy share ∧
          engine.done = (.ok (), engine') := by
  obtain ⟨hgoing, hrecorded⟩ := hp.recorded_all hload hc
  obtain ⟨shares, hshared⟩ := hp.shared hload hgoing
  obtain ⟨unpulled, hkept⟩ := hp.kept hload hgoing
  -- nothing is outstanding, so there is nothing in reports
  have hnone : p.named = [] := by
    have hkeys := hkept.account.keys
    rw [hp.steered.emptied hgoing (.inr hc)] at hkeys
    have hunderway := List.nil_perm.mp hkeys
    rw [underway, List.append_eq_nil_iff] at hunderway
    have hreported : p.named.map Prod.fst = [] := by
      rw [← hunderway.2, named, reported, List.map_filterMap]
      refine congrArg (List.filterMap · p.reports) (funext fun r => ?_)
      cases r <;> rfl
    exact List.map_eq_nil_iff.mp hreported
  have htold := hshared.told
  rw [hnone, List.nil_append] at htold
  refine ⟨shares, hshared.staffed.trans hp.length_workers, ?_, htold, ?_⟩
  · -- batches are known by their names
    have hnames : ((shares.flatten.map WorkedBatch.batch).map Batch.id).Perm (all.map Batch.id) := by
      have hids := htold.map Prod.fst
      rw [List.map_map, List.map_map] at hids
      rw [List.map_map]
      exact hids.trans hrecorded
    refine Batches.perm_of_ids hload.names hnames ?_
    intro b hb
    obtain ⟨made, hmade, rfl⟩ := List.mem_map.mp hb
    exact hshared.known made hmade
  · intro id share hshare
    have hid : id < p.workers.length := hshared.staffed ▸ (List.getElem?_eq_some_iff.mp hshare).1
    obtain ⟨w, hw⟩ : ∃ w, p.workers[id]? = some w := ⟨_, List.getElem?_eq_getElem hid⟩
    have hheld := hshared.held hw hshare
    have hended := hp.returned_ended hc hw
    obtain ⟨engine, engine', he, hsession, hdone⟩ : ∃ engine engine' : Engine σ,
        w.engine = some engine' ∧
          engine.Session setup.order (setup.given id) setup.entropy share ∧
          engine.done = (.ok (), engine') := by
      rw [Worker.HasShare] at hheld
      unfold Stage.Ended at hended
      split at hended
      · rename_i hs
        rwa [hs] at hheld
      · rename_i hs
        rwa [hs] at hheld
      · exact hended.elim
    refine ⟨w, engine, engine', hw, ?_, hsession, hdone⟩
    rw [Worker.copies, he]

end SeededRows.Pool
