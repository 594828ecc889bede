/-
  SeededRows.Proofs.Pool.Reductions

  A pool whose workers' copies fare as they may outside. No reduction on any copy of a worker ever
  stops, in whatever state the pool is; what was recorded are the digests of batches of good specs;
  and whatever stopped a worker is a row of the run that cannot be drawn, or a hook of one of its
  aggregators that is not a reduction.
-/
import SeededRows.Proofs.Engine.Reductions
import SeededRows.Proofs.Pool.Digest
import SeededRows.Proofs.Pool.Provenance

namespace SeededRows.Pool

variable {σ : Type} {setup : Setup σ} {fields : List String} {Ss : List (Summer σ)} {p : Pool σ}
  {batches : Batches RowIds.Stream} {workers : Nat} {progress : Progress} {all : List Batch}
  {h : History σ}

/-- All aggregators of a setup sum rows, and the copies that workers are given map and reduce rows as
these do, however they fare outside. -/
structure Setup.Fitting (setup : Setup σ) (fields : List String) (Ss : List (Summer σ)) : Prop where
  fields : selectFields setup.order setup.configured = .ok fields
  configured : CopiesOf Ss setup.configured
  given : ∀ id, Copies.Fit Ss (Copies.aggregators (setup.given id))

/-- The engine of a worker, with the aggregators that it was given. -/
def Setup.ReducingEngine (setup : Setup σ) (fields : List String) (id : Nat) (engine : Engine σ) :
    Prop := engine.Reducing setup.order fields (Copies.aggregators (setup.given id))

theorem Setup.Fitting.start_cases (h : setup.Fitting fields Ss) (id : Nat) :
    Copies.Unbroken (Engine.start setup.order (setup.given id)).2 ∧
      ((∃ engine, (Engine.start setup.order (setup.given id)).1 = .ok engine ∧
          setup.ReducingEngine fields id engine) ∨
        ∃ s, (Engine.start setup.order (setup.given id)).1 = .error s ∧
          ∃ a ∈ Copies.aggregators (setup.given id), a.Stops s) :=
  Engine.start_cases (((h.given id).selectFields h.configured).trans h.fields)

theorem Setup.Fitting.keeps (h : setup.Fitting fields Ss)
    (hload : Workload batches workers progress all) :
    setup.Keeps all (setup.ReducingEngine fields) where
  start := by
    intro id engine hmade
    rcases (h.start_cases id).2 with ⟨engine', hmade', hengine⟩ | ⟨s, hstopped, -⟩
    · cases hmade.symm.trans hmade'
      exact hengine
    · cases hmade.symm.trans hstopped
  process := fun seen hengine hb =>
    (Engine.Reducing.process hengine (h.given _) (hload.nonempty _ hb) (hload.countable_rows hb)
      setup.entropy seen).1
  done := fun hengine => (Engine.Reducing.done hengine).1

/-- What becomes of copies that fare as they may. -/
structure Reduced (setup : Setup σ) (fields : List String) (Ss : List (Summer σ)) (all : List Batch)
    (recs : List Recording) (stops : List (Nat × Stop)) (p : Pool σ) : Prop where
  unbroken : ∀ w ∈ p.workers, Copies.Unbroken w.copies
  digests : ∀ r ∈ recs, DigestOf setup fields Ss all r.id r.results
  causes : ∀ e ∈ stops, Engine.Cause setup.order fields setup.entropy (all.flatMap Batch.rows)
    (Copies.aggregators (setup.given e.1)) e.2

theorem Reaches.reduced (hp : Reaches setup (ofBatches setup batches workers progress) h p)
    (hfitting : setup.Fitting fields Ss) (hload : Workload batches workers progress all) :
    Reduced setup fields Ss all (recordings h) (stops setup h) p := by
  have hfrom := hp.provenance hload.gives (hfitting.keeps hload)
  have hprocess {id : Nat} {engine : Engine σ} {b : Batch} (hengine : setup.ReducingEngine fields id engine)
      (hb : b ∈ all) (seen : Nat → Bool) :=
    Engine.Reducing.process hengine (hfitting.given id) (hload.nonempty b hb)
      (hload.countable_rows hb) setup.entropy seen
  refine ⟨?_, ?_, ?_⟩
  · intro w hw
    obtain ⟨id, hid⟩ := List.mem_iff_getElem?.mp hw
    rw [Worker.copies]
    cases he : w.engine with
    | some engine => exact (hfrom.engine hid he).unbroken
    | none =>
      -- the copies of an engine that was not made, if there are any
      rcases hfrom.remains hid with hnil | hstart
      · rw [hnil]
        exact fun c hc => nomatch hc
      · rw [hstart]
        exact (hfitting.start_cases id).1
  · intro r hr
    obtain ⟨b, hb, hname, id, engine, seen, hengine, hok⟩ := hfrom.recorded r hr
    obtain ⟨hgood, hdigests⟩ := (hprocess hengine hb seen).2.1 _ hok
    exact ⟨b, hb, hname, hgood, hdigests⟩
  · rintro ⟨id, s⟩ he
    cases hfrom.stopped _ he with
    | inStart stops =>
      rcases (hfitting.start_cases id).2 with ⟨engine, hmade, -⟩ | ⟨s', hstopped, a, ha, hstop⟩
      · cases stops.symm.trans hmade
      · cases stops.symm.trans hstopped
        exact .hook ha hstop
    | inWork seen holds among stops =>
      refine ((hprocess holds among seen).2.2 _ stops).mono ?_
      exact fun spec hspec => List.mem_flatMap.mpr ⟨_, among, hspec⟩
    | inDone holds stops =>
      obtain ⟨a, ha, hstop⟩ := (Engine.Reducing.done holds).2 _ stops
      exact .hook ha hstop

end SeededRows.Pool
