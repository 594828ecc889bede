/-
  SeededRows.Proofs.Pool.Custody

  How the copies of a worker are treated, whatever happens to the worker. An engine is made and
  works on batches until it is torn down, and that is tried once: when no more batches follow, or
  after a failure, but not by a worker that finds the run cancelled. So a property of copies that are
  in use and one of copies that are not any more hold of the copies of every worker, in the stages
  where they should, as soon as engines respect them.
-/
import SeededRows.Coordinator
import SeededRows.Proofs.Engine.Copies
import SeededRows.Proofs.Pool.Start

namespace SeededRows

variable {σ : Type} {used spent : List (Copy σ) → Prop}

/-- Engines respect two properties of copies: the first one holds from the making of an engine to its
teardown, the second one after the teardown, and of the copies of an engine that cannot be made. -/
structure Engine.Respects (used spent : List (Copy σ) → Prop) : Prop where
  made : ∀ {order : FieldOrder} {configured copies : List (Copy σ)} {engine : Engine σ},
    Engine.start order configured = (.ok engine, copies) → used engine.copies
  unmade : ∀ {order : FieldOrder} {configured copies : List (Copy σ)} {s : Stop},
    Engine.start order configured = (.error s, copies) → spent copies
  working : ∀ {engine : Engine σ} (entropy : Entropy) (cancelled : Nat → Bool) (specs : List RowSpec),
    used engine.copies → used (engine.process entropy cancelled specs).2.copies
  torn : ∀ {engine : Engine σ}, used engine.copies → spent engine.done.2.copies

namespace Pool

variable {setup : Setup σ} {p q : Pool σ} {batches : Batches RowIds.Stream} {workers : Nat}
  {progress : Progress} {h : History σ}

/-! ## One worker -/

namespace Worker

variable {w v : Worker σ}

/-- The worker has an engine in use, and its teardown was not tried. -/
structure Holds (used : List (Copy σ) → Prop) (w : Worker σ) : Prop where
  copies : used w.copies
  engine : w.engine.isSome = true
  untried : w.doneAttempted = false

/-- The worker has nothing in use any more, and no teardown will follow. -/
structure Released (spent : List (Copy σ) → Prop) (w : Worker σ) : Prop where
  copies : spent w.copies
  tried : w.engine = none ∨ w.doneAttempted = true

/-- What holds of the copies of a worker in each stage. -/
def Respects (used spent : List (Copy σ) → Prop) (w : Worker σ) : Prop :=
  match w.stage with
  | .spawned => w.engine = none ∧ w.remains = [] ∧ w.doneAttempted = false
  | .failing .. | .cleaning _ => w.Holds used ∨ w.Released spent
  | .leaving | .exited .finished _ | .exited .failed _ => w.Released spent
  | .exited .cancelled _ => used w.copies
  | .waiting | .receiving | .took _ | .working _ | .finishing => w.Holds used

/-- A worker that only goes to another stage. -/
theorem Holds.congr (h : w.Holds used) (hengine : v.engine = w.engine) (hremains : v.remains = w.remains)
    (hdone : v.doneAttempted = w.doneAttempted) : v.Holds used := by
  have hcopies : v.copies = w.copies := by
    simp only [Worker.copies, hengine, hremains]
  exact ⟨hcopies ▸ h.copies, hengine ▸ h.engine, hdone ▸ h.untried⟩

theorem Released.congr (h : w.Released spent) (hengine : v.engine = w.engine)
    (hremains : v.remains = w.remains) (hdone : v.doneAttempted = w.doneAttempted) :
    v.Released spent := by
  have hcopies : v.copies = w.copies := by
    simp only [Worker.copies, hengine, hremains]
  exact ⟨hcopies ▸ h.copies, hengine ▸ hdone ▸ h.tried⟩

theorem Holds.used_engine (h : w.Holds used) {engine : Engine σ} (he : w.engine = some engine) :
    used engine.copies := by
  have hcopies := h.copies
  rwa [Worker.copies, he] at hcopies

theorem Holds.tearDown (respects : Engine.Respects used spent) (h : w.Holds used) :
    w.tearDown.2.Released spent := by
  obtain ⟨engine, he⟩ := Option.isSome_iff_exists.mp h.engine
  have htorn := respects.torn (h.used_engine he)
  rw [Worker.tearDown, he]
  exact ⟨htorn, .inr rfl⟩

/-- After a failure a worker tears its copies down unless that was tried before. -/
theorem released_finishQuietly (respects : Engine.Respects used spent)
    (h : w.Holds used ∨ w.Released spent) : w.finishQuietly.Released spent := by
  rw [finishQuietly]
  rcases h with hholds | hreleased
  · rw [hholds.untried, if_neg Bool.false_ne_true]
    exact hholds.tearDown respects
  · by_cases hdone : w.doneAttempted = true
    · rw [if_pos hdone]
      exact hreleased
    · -- without an engine there is nothing to tear down
      have hnone : w.engine = none := hreleased.tried.resolve_right hdone
      have hspent := hreleased.copies
      rw [if_neg hdone, Worker.tearDown, hnone]
      exact ⟨by simpa only [Worker.copies, hnone] using hspent, .inr rfl⟩

/-- Whatever the stage, a worker that has copies has them in use, or they are not any more. -/
theorem Respects.cases (h : w.Respects used spent) : w.copies = [] ∨ used w.copies ∨ spent w.copies := by
  rw [Respects] at h
  split at h
  · left
    rw [Worker.copies, h.1]
    exact h.2.1
  all_goals first
    | exact .inr (h.imp Holds.copies Released.copies)
    | exact .inr (.inl h.copies)
    | exact .inr (.inr h.copies)
    | exact .inr (.inl h)

end Worker

/-- What a batch does to the engine of a worker. -/
theorem Worker.Holds.process {w : Worker σ} {engine engine' : Engine σ} {cancelled : Nat → Bool}
    {specs : List RowSpec} {r : Except Halt (List Accumulator)}
    (respects : Engine.Respects used spent) (h : w.Holds used) (he : w.engine = some engine)
    (hprocess : engine.process setup.entropy cancelled specs = (r, engine')) :
    used engine'.copies := by
  have hafter := respects.working setup.entropy cancelled specs (h.used_engine he)
  rwa [hprocess] at hafter

/-- Every move of a worker keeps what holds of its copies. -/
theorem WorkerMove.respects {id : Nat} {w v : Worker σ} {s : Option Stop}
    (respects : Engine.Respects used spent) (hm : WorkerMove setup p id w s q)
    (hw : p.workers[id]? = some w) (hv : q.workers[id]? = some v) (h : w.Respects used spent) :
    v.Respects used spent := by
  cases hm with
  | begins at_stage made =>
    simp only [Worker.Respects, at_stage] at h
    cases (getElem?_set_of_some hw _).symm.trans hv
    exact ⟨respects.made made, rfl, h.2.2⟩
  | cannotBegin at_stage stopped =>
    simp only [Worker.Respects, at_stage] at h
    cases (getElem?_set_of_some hw _).symm.trans hv
    have hspent := respects.unmade stopped
    exact .inr ⟨by simpa only [Worker.copies, h.1] using hspent, .inl h.1⟩
  -- a worker that goes on
  | locks at_stage | takes at_stage | findsClosed at_stage | accepts at_stage | windsUp at_stage =>
    simp only [Worker.Respects, at_stage] at h
    cases (getElem?_set_of_some hw _).symm.trans hv
    exact h.congr rfl rfl rfl
  | idles =>
    cases (getElem?_set_of_some hw _).symm.trans hv
    exact h
  | reports at_stage with_engine allowed worked =>
    simp only [Worker.Respects, at_stage] at h
    cases (getElem?_set_of_some hw _).symm.trans hv
    exact ⟨h.process respects with_engine worked, rfl, h.untried⟩
  -- a worker that is cancelled
  | isCancelled at_stage =>
    simp only [Worker.Respects, at_stage] at h
    cases (getElem?_set_of_some hw _).symm.trans hv
    exact h.copies
  | givesUp at_stage with_engine allowed saw =>
    simp only [Worker.Respects, at_stage] at h
    cases (getElem?_set_of_some hw _).symm.trans hv
    exact h.process respects with_engine saw
  -- a worker that fails
  | missesEnd at_stage =>
    simp only [Worker.Respects, at_stage] at h
    cases (getElem?_set_of_some hw _).symm.trans hv
    exact .inl (h.congr rfl rfl rfl)
  | stopsWorking at_stage with_engine allowed stopped =>
    simp only [Worker.Respects, at_stage] at h
    cases (getElem?_set_of_some hw _).symm.trans hv
    exact .inl ⟨h.process respects with_engine stopped, rfl, h.untried⟩
  | cannotFinish at_stage stopped =>
    simp only [Worker.Respects, at_stage] at h
    have hreleased := h.tearDown respects
    rw [stopped] at hreleased
    cases (getElem?_set_of_some hw _).symm.trans hv
    exact .inr (hreleased.congr rfl rfl rfl)
  | tells at_stage =>
    simp only [Worker.Respects, at_stage] at h
    cases (getElem?_set_of_some hw _).symm.trans hv
    exact h.imp (·.congr rfl rfl rfl) (·.congr rfl rfl rfl)
  -- a worker that is done
  | finishes at_stage torn =>
    simp only [Worker.Respects, at_stage] at h
    have hreleased := h.tearDown respects
    rw [torn] at hreleased
    cases (getElem?_set_of_some hw _).symm.trans hv
    exact hreleased.congr rfl rfl rfl
  | cleansUp at_stage =>
    simp only [Worker.Respects, at_stage] at h
    cases (getElem?_set_of_some hw _).symm.trans hv
    exact (Worker.released_finishQuietly respects h).congr rfl rfl rfl
  | leaves at_stage =>
    simp only [Worker.Respects, at_stage] at h
    cases (getElem?_set_of_some hw _).symm.trans hv
    exact h.congr rfl rfl rfl

/-! ## All workers -/

theorem Reaches.respects (hp : Reaches setup (ofBatches setup batches workers progress) h p)
    (respects : Engine.Respects used spent) :
    ∀ {id : Nat} {w : Worker σ}, p.workers[id]? = some w → w.Respects used spent := by
  refine hp.invariant (I := fun _ _ p => ∀ {id : Nat} {w : Worker σ}, p.workers[id]? = some w →
    w.Respects used spent) ?_ ?_ ?_
  · intro id w hw
    rw [(ofBatches_untouched setup batches workers progress).fresh hw]
    exact ⟨rfl, rfl, rfl⟩
  · intro h p q id w s _ hi hw hm j v
    exact hm.forall_workers (P := fun _ v => v.Respects used spent)
      (fun hv => hm.respects respects hw hv (hi hw)) hi
  · intro h p q r _ hi hm id w hw
    rw [hm.workers.1] at hw
    exact hi hw

end Pool

/-! ## The calling thread -/

namespace Inline

/-- The loop over batches leaves the copies in use, and nothing cancels it. -/
theorem drive_used (respects : Engine.Respects used spent) (entropy : Entropy) {engine : Engine σ}
    (h : used engine.copies) (n : Nat) (batches : Batches RowIds.Stream) (tally : Tally)
    (progress : Progress) :
    used (drive entropy n batches engine tally progress).2.1.copies ∧
      (drive entropy n batches engine tally progress).1 ≠ .cancelled := by
  induction n generalizing engine batches tally progress with
  | zero => exact ⟨h, fun hc => nomatch hc⟩
  | succ n ih =>
    rw [drive]
    cases batches.next? with
    | none => exact ⟨h, fun hc => nomatch hc⟩
    | some next =>
      obtain ⟨b, rest⟩ := next
      have hafter := respects.working entropy (fun _ => false) b.rows h
      rcases hp : engine.process entropy (fun _ => false) b.rows with ⟨halt | results, engine'⟩
      · rw [hp] at hafter
        cases halt with
        | stop s =>
          simp only [hp]
          exact ⟨hafter, fun hc => nomatch hc⟩
        | cancelled =>
          obtain ⟨i, hi⟩ := Engine.process_cancelled (congrArg Prod.fst hp)
          cases hi
      · rw [hp] at hafter
        simp only [hp]
        cases tally.record results with
        | error violation => exact ⟨hafter, fun hc => nomatch hc⟩
        | ok tally => exact ih hafter rest tally (progress.add b.size)

/-- A run on the calling thread tears the copies down whether or not it goes well. -/
theorem run_spent (respects : Engine.Respects used spent) (order : FieldOrder)
    (configured : List (Copy σ)) (entropy : Entropy) (batches : Batches RowIds.Stream)
    (progress : Progress) : spent (run order configured entropy batches progress).2.1 := by
  rw [run]
  rcases hstart : Engine.start order configured with ⟨s | engine, copies⟩
  · exact respects.unmade hstart
  · simp only
    have hdrive := drive_used respects entropy (respects.made hstart)
      (batches.rows.remaining + 1) batches (.empty configured.length) progress
    rcases hd : drive entropy (batches.rows.remaining + 1) batches engine (.empty configured.length)
      progress with ⟨_ | _ | info, engine', progress'⟩
    · rw [hd] at hdrive
      have htorn := respects.torn hdrive.1
      rcases hdone : engine'.done with ⟨s | ⟨⟩, engine''⟩
      · rw [hdone] at htorn
        simp only [hdone]
        exact htorn
      · rw [hdone] at htorn
        simp only [hdone]
        exact htorn
    · rw [hd] at hdrive
      exact absurd rfl hdrive.2
    · rw [hd] at hdrive
      exact respects.torn hdrive.1

end Inline

end SeededRows
