/-
  SeededRows.Proofs.Pool.Digest

  What a pool makes of its batches when all aggregators sum rows. As long as the run is not given
  up, the engines of its workers digest batches; so whatever is reported, and then recorded,
  digests a batch of the run, and the specs of that batch were good. When the specs of all batches
  are good, no worker ever stops and the run is not given up.
-/
import SeededRows.Proofs.Engine.Digest
import SeededRows.Proofs.Pool.Failures

namespace SeededRows.Pool

variable {σ : Type} {setup : Setup σ} {fields : List String} {Ss : List (Summer σ)}
  {p q : Pool σ} {batches : Batches RowIds.Stream} {workers : Nat} {progress : Progress}
  {all : List Batch} {recs : List Recording} {h : History σ}

/-! ## Setups -/

/-- All aggregators of a setup sum rows, and every worker can set its copies of them up. -/
structure Setup.Sums (setup : Setup σ) (fields : List String) (Ss : List (Summer σ)) : Prop where
  fields : selectFields setup.order setup.configured = .ok fields
  configured : CopiesOf Ss setup.configured
  given : ∀ id, CopiesOf Ss (setup.given id)
  starts : ∀ c ∈ setup.configured, c.clone.start.1 = .ok ()

/-- Every worker can make an engine that digests batches. -/
theorem Setup.Sums.start (h : setup.Sums fields Ss) (id : Nat) :
    ∃ engine copies, Engine.start setup.order (setup.given id) = (.ok engine, copies) ∧
      engine.Digesting setup.order fields Ss :=
  Engine.start_digesting (h.given id) h.configured h.fields h.starts

/-- Workers that all find the same outside are given copies of the configured aggregators. -/
theorem Setup.given_alike (halike : setup.settle = .alike) (id : Nat) :
    setup.given id = setup.configured.map Copy.clone := by
  rw [given, halike]
  refine List.ext_getElem? fun i => ?_
  rw [List.getElem?_mapIdx]
  exact congrFun Option.map_id _

theorem Setup.sums_of_alike (halike : setup.settle = .alike)
    (hfields : selectFields setup.order setup.configured = .ok fields)
    (hconfigured : CopiesOf Ss setup.configured)
    (hstarts : ∀ c ∈ setup.configured, c.clone.start.1 = .ok ()) : setup.Sums fields Ss := by
  refine ⟨hfields, hconfigured, fun id => ?_, hstarts⟩
  rw [Setup.given_alike halike id]
  exact hconfigured.clones

theorem Workload.countable_all (h : Workload batches workers progress all) :
    Countable (all.flatMap Batch.rows) := by
  refine ⟨h.ids, ?_⟩
  have hcountable := h.countable
  rw [Batches.sum_size, Progress.limit] at hcountable
  exact Nat.lt_of_le_of_lt hcountable (by decide)

theorem Workload.countable_rows (h : Workload batches workers progress all) {b : Batch}
    (hb : b ∈ all) : Countable b.rows := by
  have hrows := h.countable_all
  rw [List.flatMap_def] at hrows
  exact hrows.sublist (List.sublist_flatten_of_mem (List.mem_map_of_mem hb))

/-! ## Digests of batches -/

/-- What was made of the batch of a name is its digest, and the specs of the batch are good. -/
def DigestOf (setup : Setup σ) (fields : List String) (Ss : List (Summer σ)) (all : List Batch)
    (name : BatchId) (results : List Accumulator) : Prop :=
  ∃ b ∈ all, b.id = name ∧
    (∀ spec ∈ b.rows, Good setup.order fields setup.entropy Ss spec) ∧
    Digests Ss (rowsOf setup.order fields setup.entropy b) results

/-- The engines of all workers that serve digest batches, and what is reported or was recorded
digests a batch of the run. -/
structure Digested (setup : Setup σ) (fields : List String) (Ss : List (Summer σ))
    (all : List Batch) (recs : List Recording) (p : Pool σ) : Prop where
  serving : ∀ {id : Nat} {w : Worker σ}, p.workers[id]? = some w → w.stage.Serving →
    ∃ engine, w.engine = some engine ∧ engine.Digesting setup.order fields Ss
  sent : ∀ {name worker results}, .generated name worker results ∈ p.reports →
    DigestOf setup fields Ss all name results
  recorded : ∀ r ∈ recs, DigestOf setup fields Ss all r.id r.results

/-- A worker that works a batch of the run through digests it. -/
theorem Digested.works {id : Nat} {w : Worker σ} {b : Batch} {results : List Accumulator}
    {engine' : Engine σ} (h : Digested setup fields Ss all recs p)
    (hload : Workload batches workers progress all) (hb : b ∈ all) (hw : p.workers[id]? = some w)
    (hworks : Works setup p w b results engine') :
    DigestOf setup fields Ss all b.id results ∧ engine'.Digesting setup.order fields Ss := by
  obtain ⟨engine, seen, he, -, hprocess⟩ := hworks.worked
  obtain ⟨engine₀, he₀, hengine⟩ := h.serving hw (by rw [hworks.at_stage]; trivial)
  cases he.symm.trans he₀
  obtain ⟨hgood, hdigests, hengine'⟩ :=
    hengine.of_process (hload.nonempty b hb) (hload.countable_rows hb) hprocess
  exact ⟨⟨b, hb, rfl, hgood, hdigests⟩, hengine'⟩

/-- The batch that a worker works on is one of the run. -/
theorem Kept.mem_of_working {limit id : Nat} {w : Worker σ} {b : Batch} {unpulled : List Batch}
    (h : Kept all limit recs unpulled p) (hw : p.workers[id]? = some w)
    (hstage : w.stage = .working b) : b ∈ all := by
  have hheld : b ∈ p.held :=
    List.mem_filterMap.mpr ⟨w, List.mem_of_getElem? hw, by rw [hstage]; rfl⟩
  exact h.account.known b (.inr (.inr hheld))

theorem Digested.worker {id : Nat} {w : Worker σ} {s : Option Stop}
    (h : Digested setup fields Ss all recs p) (hsums : setup.Sums fields Ss)
    (hload : Workload batches workers progress all)
    (hknown : ∀ b, w.stage = .working b → b ∈ all) (hw : p.workers[id]? = some w)
    (hm : WorkerMove setup p id w s q) : Digested setup fields Ss all recs q := by
  refine ⟨?_, ?_, h.recorded⟩
  · intro j v
    refine hm.forall_workers (P := fun _ v => v.stage.Serving →
      ∃ engine, v.engine = some engine ∧ engine.Digesting setup.order fields Ss) ?_ h.serving
    intro v hv hserving
    rcases hm.serving_cases hw hv hserving with ⟨hbefore, hsame⟩ | ⟨engine, copies, hmade, he⟩ |
      ⟨b, results, engine', hworks, he⟩
    -- the engine is the same, was just made, or has worked a batch through
    · rw [hsame]
      exact h.serving hw hbefore
    · obtain ⟨engine₀, copies₀, hmade₀, hengine⟩ := hsums.start id
      cases hmade.symm.trans hmade₀
      exact ⟨engine, he, hengine⟩
    · exact ⟨engine', he, (h.works hload (hknown b hworks.at_stage) hw hworks).2⟩
  · intro name worker results hr
    rcases hm.generated_sent hr with hr | ⟨b, engine', rfl, hworks⟩
    · exact h.sent hr
    · exact (h.works hload (hknown b hworks.at_stage) hw hworks).1

theorem Digested.coordinator {r : Option Recording} (h : Digested setup fields Ss all recs p)
    (hm : CoordinatorMove p r q) : Digested setup fields Ss all (r.toList ++ recs) q := by
  refine ⟨?_, fun hr => h.sent (hm.reports_subset hr), ?_⟩
  · rw [hm.workers.1]
    exact h.serving
  · intro r' hr'
    rcases List.mem_append.mp hr' with hr' | hr'
    · obtain rfl : r = some r' := Option.mem_toList.mp hr'
      exact h.sent hm.recorded_sent
    · exact h.recorded r' hr'

/-- In a run that is not given up, whatever was made of batches are their digests. -/
theorem Reaches.digested (hp : Reaches setup (ofBatches setup batches workers progress) h p)
    (hsums : setup.Sums fields Ss) (hload : Workload batches workers progress all)
    (hgoing : p.cancel = false) : Digested setup fields Ss all (recordings h) p := by
  revert hgoing
  refine hp.invariant (I := fun recs _ p => p.cancel = false →
    Digested setup fields Ss all recs p) ?_ ?_ ?_
  · intro _
    have hstart := ofBatches_untouched setup batches workers progress
    refine ⟨?_, ?_, fun r hr => nomatch hr⟩
    · intro id w hw hserving
      rw [hstart.fresh hw] at hserving
      exact hserving.elim
    · intro name worker results hr
      rw [hstart.reports] at hr
      cases hr
  · intro h p q id w s hp hi hw hm hgoing
    have hgoing := hm.sameCoordinator.cancel.symm.trans hgoing
    obtain ⟨unpulled, hkept⟩ := hp.kept hload hgoing
    exact (hi hgoing).worker hsums hload (fun b hstage => hkept.mem_of_working hw hstage) hw hm
  · intro h p q r _ hi hm hgoing
    exact (hi (hm.going hgoing)).coordinator hm

/-! ## Runs over good specs -/

/-- No worker stops in a run over good specs. -/
theorem Reaches.unstopped (hp : Reaches setup (ofBatches setup batches workers progress) h p)
    (hsums : setup.Sums fields Ss) (hload : Workload batches workers progress all)
    (hgood : ∀ b ∈ all, ∀ spec ∈ b.rows, Good setup.order fields setup.entropy Ss spec) :
    stops setup h = [] := by
  refine hp.invariant (I := fun _ stops _ => stops = []) rfl ?_ fun _ hi _ => hi
  intro h p q id w s hp hi hw hm
  have hgoing : p.cancel = false :=
    hp.steered.cancel_of_verdict (hp.verdict_of_unstopped hload hi)
  have hdigested := hp.digested hsums hload hgoing
  rw [hi, List.append_nil]
  cases hm with
  -- every worker can make its engine
  | cannotBegin at_stage stopped =>
    obtain ⟨engine, copies, hmade, -⟩ := hsums.start id
    cases stopped.symm.trans hmade
  | @stopsWorking b engine engine' s seen at_stage with_engine allowed stopped =>
    obtain ⟨engine₀, he₀, hengine⟩ := hdigested.serving hw (by rw [at_stage]; trivial)
    cases with_engine.symm.trans he₀
    obtain ⟨unpulled, hkept⟩ := hp.kept hload hgoing
    have hb := hkept.mem_of_working hw at_stage
    -- nobody cancelled the run, so the worker did not see it cancelled
    have hseen : ∀ i, seesCancel seen i = false := by
      cases seen with
      | none => exact fun _ => rfl
      | some first => cases hgoing.symm.trans (allowed rfl)
    obtain ⟨results, engine'', hok⟩ :=
      hengine.process_ok hseen (hload.nonempty b hb) (hload.countable_rows hb) (hgood b hb)
    cases stopped.symm.trans hok
  -- and an engine that digests can be torn down
  | cannotFinish at_stage stopped =>
    obtain ⟨engine, he, hengine⟩ := hdigested.serving hw (by rw [at_stage]; trivial)
    have hdone := hengine.done
    rw [Worker.tearDown, he] at stopped
    cases (congrArg Prod.fst stopped).symm.trans hdone
  | _ => rfl

/-- A pool that returned without an error has recorded every batch, and was not given up. -/
theorem Reaches.recorded_all (hp : Reaches setup (ofBatches setup batches workers progress) h p)
    (hload : Workload batches workers progress all) (hc : p.control = .returned (.ok ())) :
    p.cancel = false ∧ ((recordings h).map Recording.id).Perm (all.map Batch.id) := by
  have hgoing : p.cancel = false := hp.steered.cancel_of_verdict (by rw [verdict?, hc])
  obtain ⟨unpulled, hkept⟩ := hp.kept hload hgoing
  have hout := hp.steered.emptied hgoing (.inr hc)
  exact ⟨hgoing, (hkept.finished hout).2⟩

end SeededRows.Pool
