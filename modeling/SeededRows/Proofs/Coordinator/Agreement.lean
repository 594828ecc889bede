/-
  SeededRows.Proofs.Coordinator.Agreement

  A run on a pool agrees with the run on the calling thread, where there is room for a pool. Both
  end well exactly when the specs of all rows are good, and both then have for each aggregator its
  accumulator of all rows: the pool adds the batches up in the order in which they happened to come
  in, the calling thread in their own, and aggregators that sum rows make no difference between
  them. In a run with a seed every row is drawn from a seed of its own, so it is also the same rows
  that are added up. That a run on a pool comes to an end at all is a matter of the schedule, which
  must not pass anybody over for ever.
-/
import SeededRows.Proofs.Aggregator.Stock
import SeededRows.Proofs.Coordinator.Inline
import SeededRows.Proofs.Pool.Digest
import SeededRows.Proofs.Pool.Termination
import SeededRows.Proofs.Settings

namespace SeededRows

variable {σ : Type} {fields : List String} {Ss : List (Summer σ)}

/-! ## Tallies of pools -/

namespace Pool

variable {setup : Setup σ} {all : List Batch} {batches : Batches RowIds.Stream} {workers : Nat}
  {progress : Progress} {h : History σ} {p : Pool σ}

/-- Recorded digests are a tally of batches, the earliest first, that go by the recorded names. -/
theorem tallies_of_recordings {recs : List Recording}
    (h : ∀ r ∈ recs, DigestOf setup fields Ss all r.id r.results) :
    ∃ bs : List Batch, bs.map Batch.id = recs.map Recording.id ∧ (∀ b ∈ bs, b ∈ all) ∧
      Tallies Ss (bs.map (rowsOf setup.order fields setup.entropy)).reverse
        (tallyOf Ss.length recs) := by
  induction recs with
  | nil => exact ⟨[], rfl, by simp, .empty Ss⟩
  | cons r recs ih =>
    obtain ⟨bs, hnames, hmem, htally⟩ := ih fun r' hr' => h r' (List.mem_cons_of_mem r hr')
    obtain ⟨b, hb, hname, -, hdigests⟩ := h r List.mem_cons_self
    refine ⟨b :: bs, ?_, ?_, ?_⟩
    · rw [List.map_cons, List.map_cons, hname, hnames]
    · intro b' hb'
      rcases List.mem_cons.mp hb' with rfl | hb'
      · exact hb
      · exact hmem b' hb'
    · rw [List.map_cons, List.reverse_cons]
      exact htally.record hdigests

/-- When every batch is recorded by its name, the batches of the tally are all batches. -/
theorem perm_of_names {bs : List Batch} {recs : List Recording}
    (hnodup : (all.map Batch.id).Nodup)
    (hrecorded : (recs.map Recording.id).Perm (all.map Batch.id))
    (hnames : bs.map Batch.id = recs.map Recording.id) (hmem : ∀ b ∈ bs, b ∈ all) :
    bs.Perm all :=
  Batches.perm_of_ids hnodup (hnames ▸ hrecorded) hmem

/-- When every batch is recorded with its digest, the specs of all batches are good. -/
theorem good_of_digests {recs : List Recording} (hnodup : (all.map Batch.id).Nodup)
    (hrecorded : (recs.map Recording.id).Perm (all.map Batch.id))
    (hdigests : ∀ r ∈ recs, DigestOf setup fields Ss all r.id r.results) :
    ∀ spec ∈ all.flatMap Batch.rows, Good setup.order fields setup.entropy Ss spec := by
  intro spec hspec
  obtain ⟨b, hb, hspec⟩ := List.mem_flatMap.mp hspec
  have hname : b.id ∈ recs.map Recording.id := hrecorded.mem_iff.mpr (List.mem_map_of_mem hb)
  obtain ⟨r, hr, hrname⟩ := List.mem_map.mp hname
  obtain ⟨b', hb', hname', hgood, -⟩ := hdigests r hr
  obtain rfl : b' = b := List.inj_on_of_nodup_map hnodup hb' hb (hname'.trans hrname)
  exact hgood spec hspec

/-- The tally of a pool that returned without an error is one of all rows, if what was recorded are
digests of batches; and the specs of all rows are good. -/
theorem Reaches.tallies (hp : Reaches setup (ofBatches setup batches workers progress) h p)
    (hconfigured : CopiesOf Ss setup.configured)
    (hdigests : ∀ r ∈ recordings h, DigestOf setup fields Ss all r.id r.results)
    (hload : Workload batches workers progress all) (hsome : all ≠ [])
    (hc : p.control = .returned (.ok ())) :
    (∀ spec ∈ all.flatMap Batch.rows, Good setup.order fields setup.entropy Ss spec) ∧
    ∃ groups, groups ≠ [] ∧ Tallies Ss groups p.tally ∧
      groups.flatten.Perm ((all.flatMap Batch.rows).map (rowOf setup.order fields setup.entropy)) := by
  -- the tally holds every batch, in the order in which they came in
  obtain ⟨-, hrecorded⟩ := hp.recorded_all hload hc
  obtain ⟨bs, hnames, hmem, htally⟩ := tallies_of_recordings hdigests
  have hperm := perm_of_names hload.names hrecorded hnames hmem
  rw [List.Forall₂.length_eq hconfigured, ← hp.tallied.tally] at htally
  refine ⟨good_of_digests hload.names hrecorded hdigests, _, ?_, htally, ?_⟩
  · rw [ne_eq, List.reverse_eq_nil_iff, List.map_eq_nil_iff]
    rintro rfl
    exact hsome (List.nil_perm.mp hperm)
  · rw [← flatten_rowsOf]
    exact ((List.reverse_perm _).trans (hperm.map _)).flatten

end Pool

/-! ## Runs on a pool -/

namespace Coordinator

variable {c : Coordinator σ} {entropy : Entropy} {rows : RowIds.Stream} {h : Pool.History σ}
  {p : Pool σ} {all : List Batch}

/-- A run on a pool that comes to an end ends well exactly when the specs of all its rows are
good, and then it sums them up. -/
theorem ending_pool
    (hp : Pool.Reaches (c.setup entropy .alike) (c.pool entropy .alike rows) h p)
    (hcopies : CopiesOf Ss c.configured) (hfields : selectFields c.order c.configured = .ok fields)
    (hstarts : ∀ copy ∈ c.configured, copy.clone.start.1 = .ok ())
    (hload : Pool.Workload (.ofSize rows c.settings.batchSize.toNat) c.settings.workers
      (.ofTotal c.settings.rows c.settings.verbose) all)
    (hsome : all ≠ []) (hreturned : p.outcome? ≠ none) :
    ((∀ spec ∈ all.flatMap Batch.rows, Good c.order fields entropy Ss spec) ∧
      ∃ results drawn, (c.ofPool p).ending = .finished results ∧
        drawn.Perm ((all.flatMap Batch.rows).map (rowOf c.order fields entropy)) ∧
        SumsUp Ss drawn results) ∨
    ((¬ ∀ spec ∈ all.flatMap Batch.rows, Good c.order fields entropy Ss spec) ∧
      ∀ results, (c.ofPool p).ending ≠ .finished results) := by
  have hsums : (c.setup entropy .alike).Sums fields Ss :=
    Pool.Setup.sums_of_alike rfl hfields hcopies hstarts
  rw [ending_ofPool]
  cases ho : p.outcome? with
  | none => exact absurd ho hreturned
  | some outcome =>
    have hc := Pool.control_of_outcome ho
    rcases outcome with error | ⟨⟩
    · -- nothing would have stopped if all specs were good
      refine .inr ⟨fun hgood => ?_, fun results h => nomatch h⟩
      have hunstopped := hp.unstopped hsums hload fun b hb spec hspec =>
        hgood spec (List.mem_flatMap.mpr ⟨b, hb, hspec⟩)
      have hverdict := hp.verdict_of_unstopped hload hunstopped
      rw [Pool.verdict?, hc] at hverdict
      cases hverdict
    · -- a pool that returned without an error recorded everything
      have hdigested := hp.digested hsums hload (hp.recorded_all hload hc).1
      obtain ⟨hgood, groups, hne, htally, hdrawn⟩ :=
        hp.tallies hcopies hdigested.recorded hload hsome hc
      obtain ⟨results, hreduce, hresults⟩ :=
        htally.reduce hne (hload.countable_all.summable.perm hdrawn.symm) hcopies
      exact .inl ⟨hgood, results, _, congrArg reduced hreduce, hdrawn, hresults⟩

/-! ## Starts -/

variable {settings : Settings} {order : FieldOrder} {configured : List (Copy σ)}
  {ids : Random.Source} {schedule : Nat → Pool.Move} {moves : Nat}

/-- Valid settings ask for at least one row. -/
theorem rows_pos (hvalid : settings.validate configured.length = .ok ()) : 0 < settings.rows := by
  obtain ⟨-, -, hrows, -⟩ := Settings.validate_eq_ok_iff.mp hvalid
  exact hrows

/-- Valid settings ask for at least one worker. -/
theorem workers_pos (hvalid : settings.validate configured.length = .ok ()) : 0 < settings.workers := by
  obtain ⟨hworkers, -⟩ := Settings.validate_eq_ok_iff.mp hvalid
  exact hworkers

/-- As there is a row, there is a batch. -/
theorem batches_ne_nil {all : List Batch} (hvalid : settings.validate configured.length = .ok ())
    (hsum : (all.map Batch.size).sum = settings.rows) : all ≠ [] := by
  rintro rfl
  exact absurd hsum (Nat.ne_of_lt (rows_pos hvalid))

/-- What a validated run with workers comes to, if it comes to an end. -/
theorem ending_startWith_many (hc : ofSettings settings order configured = .ok c)
    (hcopies : CopiesOf Ss configured) (hfields : selectFields order configured = .ok fields)
    (hstarts : ∀ copy ∈ configured, copy.clone.start.1 = .ok ())
    (hmany : 2 ≤ settings.workers) (hfits : fits settings.workers = true)
    (hrows : settings.rowStream ids = .ok rows)
    (hends : (c.startWith ids entropy schedule moves).ending ≠ .unfinished) :
    ((∀ spec ∈ rows.toList, Good order fields entropy Ss spec) ∧
      ∃ results drawn, (c.startWith ids entropy schedule moves).ending = .finished results ∧
        drawn.Perm (rows.toList.map (rowOf order fields entropy)) ∧ SumsUp Ss drawn results) ∨
    ((¬ ∀ spec ∈ rows.toList, Good order fields entropy Ss spec) ∧
      ∀ results, (c.startWith ids entropy schedule moves).ending ≠ .finished results) := by
  obtain ⟨hvalid, -, rfl⟩ := ofSettings_eq_ok hc
  have hone : settings.workers ≠ 1 := by omega
  rw [startWith, startAmid, if_pos rfl, hrows] at hends ⊢
  dsimp only at hends ⊢
  rw [if_neg hone, runPool, if_pos hfits] at hends ⊢
  obtain ⟨all, hload, hflat, hsum⟩ := workload_of_run hrows (Nat.lt_of_lt_of_le Nat.two_pos hmany)
  have hsome := batches_ne_nil hvalid hsum
  obtain ⟨h, hp⟩ := Pool.Reaches.start.run schedule moves 0
  rw [← hflat]
  refine ending_pool (c := ⟨settings, order, configured, .filling⟩) hp hcopies hfields hstarts hload
    hsome fun hnone => hends ?_
  rw [ending_ofPool, hnone]

/-- What a validated run without workers comes to. -/
theorem ending_startWith_one (hc : ofSettings settings order configured = .ok c)
    (hcopies : CopiesOf Ss configured) (hfields : selectFields order configured = .ok fields)
    (hstarts : ∀ copy ∈ configured, copy.clone.start.1 = .ok ())
    (hone : settings.workers = 1) (hrows : settings.rowStream ids = .ok rows) :
    ((∀ spec ∈ rows.toList, Good order fields entropy Ss spec) ∧
      ∃ results, (c.startWith ids entropy schedule moves).ending = .finished results ∧
        SumsUp Ss (rows.toList.map (rowOf order fields entropy)) results) ∨
    ((¬ ∀ spec ∈ rows.toList, Good order fields entropy Ss spec) ∧
      ∀ results, (c.startWith ids entropy schedule moves).ending ≠ .finished results) := by
  obtain ⟨hvalid, -, rfl⟩ := ofSettings_eq_ok hc
  rw [startWith, startAmid, if_pos rfl, hrows]
  dsimp only
  rw [if_pos hone]
  obtain ⟨hsound, hremaining⟩ := RowIds.Plan.stream_sound hrows
  exact ending_runInline (c := ⟨settings, order, configured, .filling⟩) hcopies hfields hstarts
    hsound (hremaining ▸ rows_pos hvalid) (hremaining ▸ settings.numRows.toNat_lt)

/-- A run whose row ids cannot be laid out is refused. -/
theorem ending_startWith_error {f : Fault} (hc : ofSettings settings order configured = .ok c)
    (hrows : settings.rowStream ids = .error f) :
    (c.startWith ids entropy schedule moves).ending = .failed (.fault f) := by
  obtain ⟨-, -, rfl⟩ := ofSettings_eq_ok hc
  rw [startWith, startAmid, if_pos rfl, hrows]
  rfl

/-- A validated run with workers comes to an end in every fair schedule. -/
theorem startWith_ends (hc : ofSettings settings order configured = .ok c)
    (hmany : 2 ≤ settings.workers) (hfair : Pool.Fair settings.workers schedule) :
    ∃ moves, ∀ more, moves ≤ more → (c.startWith ids entropy schedule more).ending ≠ .unfinished := by
  cases hrows : settings.rowStream ids with
  | error f =>
    refine ⟨0, fun more _ => ?_⟩
    rw [ending_startWith_error hc hrows]
    exact fun h => nomatch h
  | ok rows =>
    obtain ⟨-, -, rfl⟩ := ofSettings_eq_ok hc
    have hone : settings.workers ≠ 1 := by omega
    obtain ⟨all, hload, -⟩ := workload_of_run hrows (Nat.lt_of_lt_of_le Nat.two_pos hmany)
    have hstart : Pool.Reaches (setup ⟨settings, order, configured, .filling⟩ entropy .alike)
        (pool ⟨settings, order, configured, .filling⟩ entropy .alike rows) [] _ := .start
    obtain ⟨moves, hreturns⟩ := hstart.returns hload hfair 0
    refine ⟨moves, fun more hmore => ?_⟩
    rw [startWith, startAmid, if_pos rfl, hrows]
    dsimp only
    rw [if_neg hone, runPool]
    split
    · -- the coordinator of the pool has returned
      rw [ending_ofPool]
      cases ho : Pool.outcome? _ with
      | none => exact absurd ho (hreturns more hmore)
      | some outcome =>
        rcases outcome with error | ⟨⟩
        · exact fun h => nomatch h
        · exact reduced_ne_unfinished _
    · exact fun h => nomatch h

/-! ## Agreement -/

/-- Ends of runs over the same rows, which have seeds, are the same as far as results go. -/
theorem finished_iff_of_seeds {specs : List RowSpec} {ending ending' : Ending} {entropy' : Entropy}
    (hseeds : ∀ spec ∈ specs, spec.seed ≠ none)
    (hpool : ((∀ spec ∈ specs, Good order fields entropy Ss spec) ∧
        ∃ results drawn, ending = .finished results ∧
          drawn.Perm (specs.map (rowOf order fields entropy)) ∧ SumsUp Ss drawn results) ∨
      ((¬ ∀ spec ∈ specs, Good order fields entropy Ss spec) ∧
        ∀ results, ending ≠ .finished results))
    (hinline : ((∀ spec ∈ specs, Good order fields entropy' Ss spec) ∧
        ∃ results, ending' = .finished results ∧
          SumsUp Ss (specs.map (rowOf order fields entropy')) results) ∨
      ((¬ ∀ spec ∈ specs, Good order fields entropy' Ss spec) ∧
        ∀ results, ending' ≠ .finished results)) (results : Results) :
    ending = .finished results ↔ ending' = .finished results := by
  -- rows with seeds are the same whatever entropy is around
  have hgood : (∀ spec ∈ specs, Good order fields entropy Ss spec) ↔
      ∀ spec ∈ specs, Good order fields entropy' Ss spec :=
    ⟨fun h spec hspec => (h spec hspec).of_seed (hseeds spec hspec) entropy',
      fun h spec hspec => (h spec hspec).of_seed (hseeds spec hspec) entropy⟩
  have hdrawn : specs.map (rowOf order fields entropy) = specs.map (rowOf order fields entropy') :=
    List.map_congr_left fun spec hspec => rowOf_of_seed (hseeds spec hspec) entropy entropy'
  rcases hpool with ⟨hall, r, drawn, rfl, hperm, hsums⟩ | ⟨hbad, hnever⟩
  · rcases hinline with ⟨-, r', rfl, hsums'⟩ | ⟨hbad, -⟩
    · rw [hsums.unique hsums' (hdrawn ▸ hperm)]
    · exact absurd (hgood.mp hall) hbad
  · rcases hinline with ⟨hall, -⟩ | ⟨-, hnever'⟩
    · exact absurd (hgood.mpr hall) hbad
    · exact ⟨fun h => absurd h (hnever results), fun h => absurd h (hnever' results)⟩

/-- Runs with a seed over aggregators that sum rows finish with the same results on a pool, in
whatever order it moves, and on the calling thread. -/
theorem pool_finished_iff {pooled inline : Coordinator σ} {k b b' : UInt64}
    (hcopies : CopiesOf Ss configured) (hstarts : ∀ copy ∈ configured, copy.clone.start.1 = .ok ())
    (hseed : settings.randomSeed ≠ none) (hk : 2 ≤ k.toNat) (hfits : fits k.toNat = true)
    (hpooled : ofSettings { settings with numProcesses := k, batchSize := b } order configured =
      .ok pooled)
    (hinline : ofSettings { settings with numProcesses := 1, batchSize := b' } order configured =
      .ok inline)
    (ids ids' : Random.Source) (entropy entropy' : Entropy) (schedule : Nat → Pool.Move) (moves : Nat)
    (hends : (pooled.startWith ids entropy schedule moves).ending ≠ .unfinished)
    (results : Results) :
    (pooled.startWith ids entropy schedule moves).ending = .finished results ↔
      (inline.start ids' entropy').ending = .finished results := by
  obtain ⟨-, ⟨fields, hfields⟩, -⟩ := ofSettings_eq_ok hpooled
  have hsame : settings.rowStream ids = settings.rowStream ids' :=
    RowIds.Plan.stream_of_seed hseed ids ids' settings.rows
  rw [start]
  cases hrows : settings.rowStream ids with
  -- the row ids cannot be laid out, in either run
  | error f =>
    rw [ending_startWith_error hpooled hrows, ending_startWith_error hinline (hsame ▸ hrows)]
  | ok rows =>
    exact finished_iff_of_seeds (fun spec hspec => RowIds.Plan.seed_ne_none hseed hrows hspec)
      (ending_startWith_many hpooled hcopies hfields hstarts hk hfits hrows hends)
      (ending_startWith_one hinline hcopies hfields hstarts rfl (hsame ▸ hrows)) results

end Coordinator

end SeededRows
