/-
  SeededRows.Proofs.Pool.Provenance

  Where the engines of a pool, its results and its failures come from. Every engine was made of what
  its worker was given, and has worked on batches of the run only; that is so after the run was
  given up as well as before. What is reported, and then recorded, is what such an engine made of a
  batch, and whatever stopped a worker was met by such an engine or kept it from being made. So a
  property of engines that their making, their work and their end all keep tells what results and
  failures can be.
-/
import SeededRows.Proofs.Pool.Failures

namespace SeededRows.Pool

variable {σ : Type} {setup : Setup σ} {p q : Pool σ} {batches : Batches RowIds.Stream}
  {workers : Nat} {progress : Progress} {all : List Batch} {h : History σ}

/-! ## Batches of a run -/

/-- The batches to come, those in the queue and those that workers hold are batches of the run. -/
structure Known (all : List Batch) (p : Pool σ) : Prop where
  rest : ∃ unpulled, p.rest.Gives unpulled ∧ ∀ b ∈ unpulled, b ∈ all
  carried : ∀ b, b ∈ p.queued ∨ b ∈ p.held → b ∈ all

theorem Known.worker {id : Nat} {w : Worker σ} {s : Option Stop} (h : Known all p)
    (hw : p.workers[id]? = some w) (hm : WorkerMove setup p id w s q) : Known all q := by
  refine ⟨?_, fun b hb => h.carried b (hm.mem_queued_or_held hw hb)⟩
  rw [hm.sameCoordinator.rest]
  exact h.rest

/-- The coordinator hands out no batch, or the next one. -/
theorem CoordinatorMove.hands {r : Option Recording} (hm : CoordinatorMove p r q) :
    (q.rest = p.rest ∧ q.queued = p.queued) ∨
      ∃ b rest, p.rest.next? = some (b, rest) ∧ q.rest = rest ∧ q.queued = p.queued ++ [b] := by
  cases hm with
  | @rejects r reports violation p' at_control sent wrong same =>
    obtain ⟨-, -, -, hrest, -, -, -, -, htasks⟩ := same
    exact .inl ⟨hrest, congrArg (·.filterMap Task.batch?) htasks⟩
  | @records r reports rows p' at_control sent running found counted filled =>
    have hawait : p'.awaitBatches.rest = p'.rest ∧ p'.awaitBatches.queued = p'.queued := by
      rcases p'.awaitBatches_cases with ⟨-, hq⟩ | ⟨-, hq⟩ <;> rw [hq] <;> exact ⟨rfl, rfl⟩
    rw [hawait.1, hawait.2]
    rcases refill_cases filled with ⟨-, rfl⟩ | ⟨b, rest, hnext, rfl⟩
    · exact .inl ⟨rfl, rfl⟩
    · refine .inr ⟨b, rest, hnext, rfl, ?_⟩
      simp only [queued, dispatch, recorded, List.filterMap_append]
      rfl
  | @notes worker reports =>
    have hnoted := noteDying_noted { p with reports } worker
    exact .inl ⟨hnoted.rest, congrArg (·.filterMap Task.batch?) hnoted.tasks⟩
  -- a word to finish is a task, but not a batch
  | sendsDone =>
    refine .inl ⟨rfl, ?_⟩
    simp only [queued, List.filterMap_append]
    exact List.append_nil _
  | _ => exact .inl ⟨rfl, rfl⟩

theorem Known.coordinator {r : Option Recording} (h : Known all p) (hm : CoordinatorMove p r q) :
    Known all q := by
  have hheld : q.held = p.held := by rw [held, held, hm.workers.1]
  obtain ⟨unpulled, hgives, hunpulled⟩ := h.rest
  rcases hm.hands with ⟨hrest, hqueued⟩ | ⟨b, rest, hnext, hrest, hqueued⟩
  · refine ⟨⟨unpulled, hrest ▸ hgives, hunpulled⟩, ?_⟩
    rw [hqueued, hheld]
    exact h.carried
  · obtain ⟨more, rfl, hmore⟩ := hgives.eq_cons hnext
    refine ⟨⟨more, hrest ▸ hmore, fun b' hb' => hunpulled b' (List.mem_cons_of_mem b hb')⟩, ?_⟩
    rw [hqueued, hheld]
    rintro b' (hb' | hb')
    · rcases List.mem_append.mp hb' with hb' | hb'
      · exact h.carried b' (.inl hb')
      · rw [List.mem_singleton.mp hb']
        exact hunpulled b List.mem_cons_self
    · exact h.carried b' (.inr hb')

/-- Batches of the run are all there ever is, whether or not the run was given up. -/
theorem Reaches.known (hp : Reaches setup (ofBatches setup batches workers progress) h p)
    (hgives : batches.Gives all) : Known all p := by
  refine hp.invariant (I := fun _ _ p => Known all p) ?_ (fun _ hi hw hm => hi.worker hw hm)
    (fun _ hi hm => hi.coordinator hm)
  have hstart := ofBatches_untouched setup batches workers progress
  obtain ⟨hfirst, hrest⟩ := hgives.take (queuedPerWorker * workers)
  refine ⟨⟨_, hstart.rest ▸ hrest, fun b hb => List.mem_of_mem_drop hb⟩, ?_⟩
  rintro b (hb | hb)
  · rw [queued, hstart.tasks, List.filterMap_map] at hb
    obtain ⟨b', hb', heq⟩ := List.mem_filterMap.mp hb
    cases heq
    rw [hfirst] at hb'
    exact List.mem_of_mem_take hb'
  · -- no worker has begun
    obtain ⟨w, hw, hb⟩ := List.mem_filterMap.mp hb
    obtain ⟨id, hid⟩ := List.mem_iff_getElem?.mp hw
    rw [hstart.fresh hid] at hb
    cases hb

theorem Known.mem_of_working {id : Nat} {w : Worker σ} {b : Batch} (h : Known all p)
    (hw : p.workers[id]? = some w) (hstage : w.stage = .working b) : b ∈ all := by
  refine h.carried b (.inr (List.mem_filterMap.mpr ⟨w, List.mem_of_getElem? hw, ?_⟩))
  rw [hstage]
  rfl

/-! ## Engines -/

/-- What becomes of the engine of a worker: it stays as it is, it is made, it works on the batch that
the worker holds, or it is torn down. -/
inductive Refits (setup : Setup σ) (id : Nat) (w v : Worker σ) : Prop
  | stays (engine : v.engine = w.engine) (remains : v.remains = w.remains)
  | isMade {engine : Engine σ} (made : (Engine.start setup.order (setup.given id)).1 = .ok engine)
      (engine : v.engine = some engine) (remains : v.remains = w.remains)
  | isNotMade (engine : v.engine = w.engine)
      (remains : v.remains = (Engine.start setup.order (setup.given id)).2)
  | works {engine : Engine σ} {b : Batch} (seen : Nat → Bool) (stage : w.stage = .working b)
      (before : w.engine = some engine)
      (engine : v.engine = some (engine.process setup.entropy seen b.rows).2)
      (remains : v.remains = w.remains)
  | isTornDown (engine : v.engine = w.engine.map fun engine => engine.done.2)
      (remains : v.remains = w.remains)

theorem Worker.tearDown_engine (w : Worker σ) :
    w.tearDown.2.engine = (w.engine.map fun engine => engine.done.2) ∧
      w.tearDown.2.remains = w.remains := by
  rw [tearDown]
  cases w.engine with
  | none => exact ⟨rfl, rfl⟩
  | some engine => exact ⟨rfl, rfl⟩

theorem WorkerMove.refits {id : Nat} {w v : Worker σ} {s : Option Stop}
    (hm : WorkerMove setup p id w s q) (hw : p.workers[id]? = some w)
    (hv : q.workers[id]? = some v) : Refits setup id w v := by
  cases hm with
  | begins at_stage made =>
    cases (getElem?_set_of_some hw _).symm.trans hv
    exact .isMade (congrArg Prod.fst made) rfl rfl
  | cannotBegin at_stage stopped =>
    cases (getElem?_set_of_some hw _).symm.trans hv
    exact .isNotMade rfl (congrArg Prod.snd stopped).symm
  | reports at_stage with_engine allowed worked | stopsWorking at_stage with_engine allowed worked
  | givesUp at_stage with_engine allowed worked =>
    cases (getElem?_set_of_some hw _).symm.trans hv
    exact .works _ at_stage with_engine (congrArg some (congrArg Prod.snd worked).symm) rfl
  | finishes at_stage torn | cannotFinish at_stage torn =>
    have htorn := w.tearDown_engine
    rw [torn] at htorn
    cases (getElem?_set_of_some hw _).symm.trans hv
    exact .isTornDown htorn.1 htorn.2
  | cleansUp =>
    cases (getElem?_set_of_some hw _).symm.trans hv
    rw [Worker.finishQuietly]
    split
    · exact .stays rfl rfl
    · exact .isTornDown w.tearDown_engine.1 w.tearDown_engine.2
  | _ =>
    cases (getElem?_set_of_some hw _).symm.trans hv
    exact .stays rfl rfl

/-! ## Properties of engines -/

/-- A property of the engine of a worker that holds when it is made, and that its work on batches of
the run and its end keep. -/
structure Setup.Keeps (setup : Setup σ) (all : List Batch) (C : Nat → Engine σ → Prop) : Prop where
  start : ∀ {id engine}, (Engine.start setup.order (setup.given id)).1 = .ok engine → C id engine
  process : ∀ {id engine b} (seen : Nat → Bool), C id engine → b ∈ all →
    C id (engine.process setup.entropy seen b.rows).2
  done : ∀ {id engine}, C id engine → C id engine.done.2

/-- What an engine with a property made of a batch of the run. -/
def Made (setup : Setup σ) (all : List Batch) (C : Nat → Engine σ → Prop) (name : BatchId)
    (results : List Accumulator) : Prop :=
  ∃ b ∈ all, b.id = name ∧ ∃ id engine seen, C id engine ∧
    (engine.process setup.entropy seen b.rows).1 = .ok results

/-- What kept an engine of a worker from being made, or stopped one with a property. -/
inductive Met (setup : Setup σ) (all : List Batch) (C : Nat → Engine σ → Prop) (id : Nat) (s : Stop) :
    Prop
  | inStart (stops : (Engine.start setup.order (setup.given id)).1 = .error s)
  | inWork {engine : Engine σ} {b : Batch} (seen : Nat → Bool) (holds : C id engine) (among : b ∈ all)
      (stops : (engine.process setup.entropy seen b.rows).1 = .error (.stop s))
  | inDone {engine : Engine σ} (holds : C id engine) (stops : engine.done.1 = .error s)

/-- All engines have a property, and all results and failures come from such engines. -/
structure Provenance (setup : Setup σ) (all : List Batch) (C : Nat → Engine σ → Prop)
    (recs : List Recording) (stops : List (Nat × Stop)) (p : Pool σ) : Prop where
  engine : ∀ {id w engine}, p.workers[id]? = some w → w.engine = some engine → C id engine
  remains : ∀ {id w}, p.workers[id]? = some w →
    w.remains = [] ∨ w.remains = (Engine.start setup.order (setup.given id)).2
  sent : ∀ {name worker results}, .generated name worker results ∈ p.reports →
    Made setup all C name results
  recorded : ∀ r ∈ recs, Made setup all C r.id r.results
  stopped : ∀ e ∈ stops, Met setup all C e.1 e.2

variable {C : Nat → Engine σ → Prop} {recs : List Recording} {stopped : List (Nat × Stop)}

theorem WorkerMove.met {id : Nat} {w : Worker σ} {s : Stop} (hm : WorkerMove setup p id w (some s) q)
    (hengine : ∀ {engine}, w.engine = some engine → C id engine)
    (hknown : ∀ {b}, w.stage = .working b → b ∈ all) : Met setup all C id s := by
  cases hm with
  | cannotBegin at_stage stopped => exact .inStart (congrArg Prod.fst stopped)
  | stopsWorking at_stage with_engine allowed stopped =>
    exact .inWork _ (hengine with_engine) (hknown at_stage) (congrArg Prod.fst stopped)
  | cannotFinish at_stage stopped =>
    rw [Worker.tearDown] at stopped
    split at stopped
    · cases stopped
    · rename_i engine he
      exact .inDone (hengine he) (congrArg Prod.fst stopped)

theorem Provenance.worker {id : Nat} {w : Worker σ} {s : Option Stop}
    (h : Provenance setup all C recs stopped p) (hkeeps : setup.Keeps all C) (hknown : Known all p)
    (hw : p.workers[id]? = some w) (hm : WorkerMove setup p id w s q) :
    Provenance setup all C recs ((s.map (id, ·)).toList ++ stopped) q := by
  have hworking {b : Batch} (hstage : w.stage = .working b) : b ∈ all :=
    hknown.mem_of_working hw hstage
  refine ⟨?_, ?_, ?_, h.recorded, ?_⟩
  · intro j v engine hv
    refine hm.forall_workers (P := fun j v => v.engine = some engine → C j engine) ?_ h.engine hv
    intro v hv he
    cases hm.refits hw hv with
    | stays engine | isNotMade engine => exact h.engine hw (engine ▸ he)
    | isMade made engine =>
      cases engine.symm.trans he
      exact hkeeps.start made
    | works seen stage before engine =>
      cases engine.symm.trans he
      exact hkeeps.process seen (h.engine hw before) (hworking stage)
    | isTornDown engine =>
      obtain ⟨engine₀, he₀, rfl⟩ := Option.map_eq_some_iff.mp (engine.symm.trans he)
      exact hkeeps.done (h.engine hw he₀)
  · intro j v hv
    refine hm.forall_workers (P := fun j v => v.remains = [] ∨
      v.remains = (Engine.start setup.order (setup.given j)).2) ?_ h.remains hv
    intro v hv
    cases hm.refits hw hv with
    | isNotMade engine remains => exact .inr remains
    | stays engine remains | isMade made engine remains | works seen stage before engine remains
    | isTornDown engine remains => exact remains ▸ h.remains hw
  · intro name worker results hr
    rcases hm.generated_sent hr with hr | ⟨b, engine', rfl, hworks⟩
    · exact h.sent hr
    · obtain ⟨engine, seen, he, -, hprocess⟩ := hworks.worked
      exact ⟨b, hworking hworks.at_stage, rfl, id, engine, _, h.engine hw he, congrArg Prod.fst hprocess⟩
  · intro e he
    rcases List.mem_append.mp he with he | he
    · obtain ⟨s, rfl, rfl⟩ := Option.map_eq_some_iff.mp (Option.mem_toList.mp he)
      exact hm.met (h.engine hw) hworking
    · exact h.stopped e he

theorem Provenance.coordinator {r : Option Recording} (h : Provenance setup all C recs stopped p)
    (hm : CoordinatorMove p r q) : Provenance setup all C (r.toList ++ recs) stopped q := by
  refine ⟨?_, ?_, fun hr => h.sent (hm.reports_subset hr), ?_, h.stopped⟩
  · rw [hm.workers.1]
    exact h.engine
  · rw [hm.workers.1]
    exact h.remains
  · intro r' hr'
    rcases List.mem_append.mp hr' with hr' | hr'
    · obtain rfl : r = some r' := Option.mem_toList.mp hr'
      exact h.sent hm.recorded_sent
    · exact h.recorded r' hr'

/-- A property that engines keep is one of all engines of a pool, at any time. -/
theorem Reaches.provenance (hp : Reaches setup (ofBatches setup batches workers progress) h p)
    (hgives : batches.Gives all) (hkeeps : setup.Keeps all C) :
    Provenance setup all C (recordings h) (stops setup h) p := by
  refine hp.invariant (I := fun recs stops p => Provenance setup all C recs stops p) ?_
    (fun hp hi hw hm => hi.worker hkeeps (hp.known hgives) hw hm) (fun _ hi hm => hi.coordinator hm)
  have hstart := ofBatches_untouched setup batches workers progress
  refine ⟨?_, ?_, ?_, fun r hr => (nomatch hr), fun e he => (nomatch he)⟩
  · intro id w engine hw he
    rw [hstart.fresh hw] at he
    cases he
  · intro id w hw
    rw [hstart.fresh hw]
    exact .inl rfl
  · intro name worker results hr
    rw [hstart.reports] at hr
    cases hr

end SeededRows.Pool
