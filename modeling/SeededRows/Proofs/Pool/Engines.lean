/-
  SeededRows.Proofs.Pool.Engines

  The engines of the workers of a pool. A worker that serves has the engine it made, as it is
  after the batches that it worked through; a report of a batch holds what this engine made of
  it. In particular every report brings one accumulator for each configured aggregator.
-/
import SeededRows.Proofs.Engine.Copies
import SeededRows.Proofs.Pool.Start

namespace SeededRows.Pool

variable {σ : Type} {setup : Setup σ} {p q : Pool σ}

/-- The worker has made its engine and not failed since. -/
def Stage.Serving : Stage → Prop
  | waiting | receiving | took _ | working _ | finishing => True
  | _ => False

/-- A worker works a batch through. -/
structure Works (setup : Setup σ) (p : Pool σ) (w : Worker σ) (b : Batch) (results : List Accumulator)
    (engine' : Engine σ) : Prop where
  at_stage : w.stage = .working b
  worked : ∃ engine seen, w.engine = some engine ∧ (seen.isSome → p.cancel = true) ∧
    engine.process setup.entropy (seesCancel seen) b.rows = (.ok results, engine')

/-- The engine of a worker that serves: it is still the same, or just made, or has just worked a
batch through. -/
theorem WorkerMove.serving_cases {id : Nat} {w v : Worker σ} {s : Option Stop}
    (hw : p.workers[id]? = some w) (hm : WorkerMove setup p id w s q)
    (hv : q.workers[id]? = some v) (hserving : v.stage.Serving) :
    (w.stage.Serving ∧ v.engine = w.engine) ∨
    (∃ engine copies, Engine.start setup.order (setup.given id) = (.ok engine, copies) ∧
      v.engine = some engine) ∨
    ∃ b results engine', Works setup p w b results engine' ∧ v.engine = some engine' := by
  cases hm with
  -- made
  | begins at_stage made =>
    cases (getElem?_set_of_some hw _).symm.trans hv
    exact .inr (.inl ⟨_, _, made, rfl⟩)
  -- worked a batch through
  | reports at_stage with_engine allowed worked =>
    cases (getElem?_set_of_some hw _).symm.trans hv
    exact .inr (.inr ⟨_, _, _, ⟨at_stage, _, _, with_engine, allowed, worked⟩, rfl⟩)
  -- the same
  | locks at_stage | takes at_stage | findsClosed at_stage | accepts at_stage | windsUp at_stage
  | idles at_stage =>
    cases (getElem?_set_of_some hw _).symm.trans hv
    exact .inl ⟨by rw [at_stage]; trivial, rfl⟩
  | _ =>
    cases (getElem?_set_of_some hw _).symm.trans hv
    exact hserving.elim

/-- A report of a batch is sent by a worker that has worked it through. -/
theorem WorkerMove.generated_sent {id worker : Nat} {w : Worker σ} {s : Option Stop} {name : BatchId}
    {results : List Accumulator} (hm : WorkerMove setup p id w s q)
    (hr : .generated name worker results ∈ q.reports) :
    .generated name worker results ∈ p.reports ∨
      ∃ b engine', b.id = name ∧ Works setup p w b results engine' := by
  cases hm with
  | reports at_stage with_engine allowed worked =>
    rcases List.mem_append.mp hr with hr | hr
    · exact .inl hr
    · rw [List.mem_singleton] at hr
      cases hr
      exact .inr ⟨_, _, rfl, at_stage, _, _, with_engine, allowed, worked⟩
  | finishes =>
    rcases List.mem_append.mp hr with hr | hr
    · exact .inl hr
    · rw [List.mem_singleton] at hr
      cases hr
  | _ => exact .inl hr

/-! ## Numbers of accumulators -/

/-- Workers that serve have engines with a copy of each aggregator, and reports of batches bring an
accumulator for each. -/
structure Equipped (n : Nat) (p : Pool σ) : Prop where
  serving : ∀ {id : Nat} {w : Worker σ}, p.workers[id]? = some w → w.stage.Serving →
    ∃ engine, w.engine = some engine ∧ engine.copies.length = n
  results : ∀ {id worker results}, .generated id worker results ∈ p.reports → results.length = n

theorem Equipped.works {n : Nat} {id : Nat} {w : Worker σ} {b : Batch} {results : List Accumulator}
    {engine' : Engine σ} (h : p.Equipped n) (hw : p.workers[id]? = some w)
    (hworks : Works setup p w b results engine') : results.length = n ∧ engine'.copies.length = n := by
  obtain ⟨engine, seen, he, -, hprocess⟩ := hworks.worked
  obtain ⟨engine₀, he₀, hlen⟩ := h.serving hw (by rw [hworks.at_stage]; trivial)
  cases he.symm.trans he₀
  have hcopies := engine.length_copies_process setup.entropy (seesCancel seen) b.rows
  rw [hprocess] at hcopies
  exact ⟨(Engine.length_results (congrArg Prod.fst hprocess)).trans hlen, hcopies.trans hlen⟩

theorem Reaches.equipped {batches : Batches RowIds.Stream} {workers : Nat} {progress : Progress}
    {h : History σ} (hp : Reaches setup (ofBatches setup batches workers progress) h p) :
    p.Equipped setup.configured.length := by
  refine hp.invariant (I := fun _ _ p => p.Equipped setup.configured.length) ?_ ?_ ?_
  · have hstart := ofBatches_untouched setup batches workers progress
    constructor
    · intro id w hw hserving
      rw [hstart.fresh hw] at hserving
      exact hserving.elim
    · intro id worker results hr
      rw [hstart.reports] at hr
      cases hr
  · intro h p q id w s _ hi hw hm
    constructor
    · intro j v
      refine hm.forall_workers (P := fun _ v => v.stage.Serving → ∃ engine, v.engine = some engine ∧
        engine.copies.length = setup.configured.length) ?_ hi.serving
      intro v hv hserving
      rcases hm.serving_cases hw hv hserving with ⟨hbefore, hsame⟩ | ⟨engine, copies, hmade, he⟩ |
        ⟨b, results, engine', hworks, he⟩
      · rw [hsame]
        exact hi.serving hw hbefore
      · refine ⟨engine, he, (Engine.length_copies_start hmade).trans ?_⟩
        rw [Setup.given, List.length_mapIdx, List.length_map]
      · exact ⟨engine', he, (hi.works hw hworks).2⟩
    · intro name worker results hr
      rcases hm.generated_sent hr with hr | ⟨b, engine', -, hworks⟩
      · exact hi.results hr
      · exact (hi.works hw hworks).1
  · intro h p q r _ hi hm
    refine ⟨?_, fun hr => hi.results (hm.reports_subset hr)⟩
    rw [hm.workers.1]
    exact hi.serving

end SeededRows.Pool
