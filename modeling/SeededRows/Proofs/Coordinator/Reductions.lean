/-
  SeededRows.Proofs.Coordinator.Reductions

  Runs in which copies of aggregators fare as they may outside. However a run ends, no reduction of
  it stops: not on the copies of a worker, and not on the coordinator's own in the end. A run that
  ends well has summed up all its rows; one that fails because of a worker fails for a row that
  cannot be drawn or for a hook that is not a reduction. That there is a row, and so a batch, is what
  keeps the final reduction from having nothing to reduce.
-/
import SeededRows.Proofs.Coordinator.Agreement
import SeededRows.Proofs.Coordinator.Starts
import SeededRows.Proofs.Pool.Reductions
import SeededRows.Proofs.RowIds.Layout

namespace SeededRows

variable {σ : Type} {order : FieldOrder} {fields : List String} {entropy : Entropy}
  {Ss : List (Summer σ)} {aggs : List (Aggregator σ)}

/-! ## The final reduction -/

/-- The final reduction of a tally of groups breaks nothing. -/
theorem Tallies.unbroken_reduce {groups : List (List Row)} {tally : Tally}
    (h : Tallies Ss groups tally) (hne : groups ≠ []) (hsum : Summable groups.flatten)
    {copies : List (Copy σ)} (hcopies : CopiesOf Ss copies) (hunbroken : Copies.Unbroken copies) :
    Copies.Unbroken (Copies.reduce copies tally).2 := by
  induction h generalizing copies with
  | nil =>
    cases hcopies
    exact hunbroken
  | @cons S column Ss tally hcolumn _ ih =>
    cases hcopies with
    | @cons _ c _ rest hc hrest =>
      obtain ⟨acc, c', hreduce, -⟩ := hc.reduce hcolumn hne hsum
      have hc' := hc.unbroken_reduce hcolumn hne hsum (hunbroken c List.mem_cons_self)
      have hrest' := ih hrest fun d hd => hunbroken d (List.mem_cons_of_mem c hd)
      rw [hreduce] at hc'
      rw [Copies.reduce, hreduce]
      intro d hd
      rcases List.mem_cons.mp hd with rfl | hd
      · exact hc'
      · exact hrest' d hd

/-! ## The loop over batches -/

namespace Inline

/-- What the loop over batches comes to: a tally of all batches, whose specs are good, or a stop
that is no reduction's. -/
theorem drive_reducing {bs : List Batch} {batches : Batches RowIds.Stream}
    (hgives : batches.Gives bs) (hne : ∀ b ∈ bs, b.rows ≠ [])
    (hcount : Countable (bs.flatMap Batch.rows)) {n : Nat} (hn : bs.length ≤ n) {engine : Engine σ}
    (hengine : engine.Reducing order fields aggs) (hfit : Copies.Fit Ss aggs)
    {groups : List (List Row)} {tally : Tally} (htally : Tallies Ss groups tally)
    (entropy : Entropy) (progress : Progress) :
    ∃ engine' progress', engine'.Reducing order fields aggs ∧
      ((∃ tally', drive entropy n batches engine tally progress =
            (.finished tally', engine', progress') ∧
          (∀ spec ∈ bs.flatMap Batch.rows, Good order fields entropy Ss spec) ∧
          Tallies Ss (groups ++ bs.map (rowsOf order fields entropy)) tally') ∨
        ∃ s, drive entropy n batches engine tally progress =
            (.failed (.ofStop s), engine', progress') ∧
          Engine.Cause order fields entropy (bs.flatMap Batch.rows) aggs s) := by
  induction hgives generalizing n engine groups tally progress with
  | ends hnone =>
    -- no batch is left
    refine ⟨engine, progress, hengine, .inl ⟨tally, ?_, by simp, ?_⟩⟩
    · cases n with
      | zero => rfl
      | succ n => rw [drive, hnone]
    · rwa [List.map_nil, List.append_nil]
  | @batch batches rest b bs hnext _ ih =>
    rw [List.length_cons] at hn
    obtain ⟨n, rfl⟩ : ∃ k, n = k + 1 := ⟨n - 1, by omega⟩
    have hn := Nat.le_of_succ_le_succ hn
    rw [List.flatMap_cons] at hcount ⊢
    obtain ⟨hengine', hok, hstop⟩ := hengine.process hfit (hne b List.mem_cons_self)
      (hcount.sublist (List.sublist_append_left _ _)) entropy fun _ => false
    rw [drive, hnext]
    dsimp only
    rcases hp : engine.process entropy (fun _ => false) b.rows with ⟨(s | _) | results, engine'⟩
    · rw [hp] at hengine' hstop
      have hcause := (hstop s rfl).mono fun spec hspec =>
        List.mem_append_left (bs.flatMap Batch.rows) hspec
      exact ⟨engine', progress, hengine', .inr ⟨s, rfl, hcause⟩⟩
    · -- nothing cancels the run
      obtain ⟨i, hi⟩ := Engine.process_cancelled (congrArg Prod.fst hp)
      cases hi
    · -- the batch was digested, and the loop goes on with a group more
      rw [hp] at hengine' hok
      obtain ⟨hgood, hdigests⟩ := hok results rfl
      have hrecord : tally.record results = .ok (List.zipWith (· :: ·) results tally) :=
        Tally.record_of_length
          ((List.Forall₂.length_eq hdigests).symm.trans (List.Forall₂.length_eq htally))
      dsimp only
      rw [hrecord]
      obtain ⟨engine'', progress', hengine'', hcases⟩ :=
        ih (fun b' hb' => hne b' (List.mem_cons_of_mem b hb'))
          (hcount.sublist (List.sublist_append_right _ _)) hn hengine' (htally.record hdigests)
          (progress.add b.size)
      refine ⟨engine'', progress', hengine'', ?_⟩
      rcases hcases with ⟨tally', hfinished, hrest, htally'⟩ | ⟨s, hfailed, hcause⟩
      · refine .inl ⟨tally', hfinished, ?_, ?_⟩
        · intro spec hspec
          rcases List.mem_append.mp hspec with hspec | hspec
          · exact hgood spec hspec
          · exact hrest spec hspec
        · rw [List.append_assoc] at htally'
          exact htally'
      · exact .inr ⟨s, hfailed, hcause.mono fun spec hspec => List.mem_append_right b.rows hspec⟩

/-- The same of all the work of a run on the calling thread. -/
theorem run_reducing {configured : List (Copy σ)} (hfields : selectFields order configured = .ok fields)
    (hfit : Copies.Fit Ss (Copies.aggregators configured)) {bs : List Batch}
    {batches : Batches RowIds.Stream} (hgives : batches.Gives bs) (hne : ∀ b ∈ bs, b.rows ≠ [])
    (hcount : Countable (bs.flatMap Batch.rows)) (hlength : bs.length ≤ batches.rows.remaining)
    (entropy : Entropy) (progress : Progress) :
    ∃ copies progress', Copies.Unbroken copies ∧
      ((∃ tally, run order configured entropy batches progress =
            (.finished tally, copies, progress') ∧
          (∀ spec ∈ bs.flatMap Batch.rows, Good order fields entropy Ss spec) ∧
          Tallies Ss (bs.map (rowsOf order fields entropy)) tally) ∨
        ∃ s, run order configured entropy batches progress =
            (.failed (.ofStop s), copies, progress') ∧
          Engine.Cause order fields entropy (bs.flatMap Batch.rows) (Copies.aggregators configured)
            s) := by
  obtain ⟨hunbroken, hcases⟩ := Engine.start_cases hfields
  rw [run]
  rcases hstart : Engine.start order configured with ⟨s | engine, copies⟩
  · rw [hstart] at hunbroken hcases
    obtain ⟨engine, hmade, -⟩ | ⟨s', hstopped, a, ha, hstop⟩ := hcases
    · cases hmade
    · cases hstopped
      exact ⟨copies, progress, hunbroken, .inr ⟨s, rfl, .hook ha hstop⟩⟩
  · rw [hstart] at hcases
    obtain ⟨engine₀, hmade, hengine⟩ | ⟨s', hstopped, -⟩ := hcases
    · cases hmade
      have hempty : Tallies Ss [] (.empty configured.length) := by
        have hlen := List.Forall₂.length_eq hfit
        rw [Copies.aggregators, List.length_map] at hlen
        exact hlen ▸ Tallies.empty Ss
      obtain ⟨engine', progress', hengine', hcases⟩ := drive_reducing hgives hne hcount
        (Nat.le_succ_of_le hlength) hengine hfit hempty entropy progress
      obtain ⟨hdone, hstops⟩ := hengine'.done
      refine ⟨engine'.done.2.copies, progress', hdone.unbroken, ?_⟩
      dsimp only
      rcases hcases with ⟨tally, hdrive, hgood, htally⟩ | ⟨s, hdrive, hcause⟩
      · rw [hdrive]
        dsimp only
        rcases hd : engine'.done with ⟨s | ⟨⟩, engine''⟩
        · rw [hd] at hstops
          obtain ⟨a, ha, hstop⟩ := hstops s rfl
          exact .inr ⟨s, rfl, .hook ha hstop⟩
        · exact .inl ⟨tally, rfl, hgood, htally⟩
      · rw [hdrive]
        exact .inr ⟨s, rfl, hcause⟩
    · cases hstopped

end Inline

/-! ## Runs -/

/-- What a run comes to in which copies fare as they may: if it ends well, all its rows are summed
up; no reduction stops, neither on the copies of a worker nor on the coordinator's own; if it fails,
that is not for a fault of the coordinator, and if it fails for a worker, there is a cause that is no
reduction's; and the calling thread crashes only for want of room for the workers. -/
structure Run.Reduces (run : Run σ) (order : FieldOrder) (fields : List String) (entropy : Entropy)
    (Ss : List (Summer σ)) (specs : List RowSpec) (aggs : Nat → List (Aggregator σ)) : Prop where
  sums : ∀ {results}, run.ending = .finished results →
    (∀ spec ∈ specs, Good order fields entropy Ss spec) ∧
      ∃ drawn, drawn.Perm (specs.map (rowOf order fields entropy)) ∧ SumsUp Ss drawn results
  own : Copies.Unbroken run.coordinator.configured
  workers : ∀ copies ∈ run.workerCopies, Copies.Unbroken copies
  faults : ∀ f, run.ending ≠ .failed (.fault f)
  causes : ∀ {worker info}, run.ending = .failed (.workerFailure worker info) →
    ∃ s, info = .ofStop s ∧ Engine.Cause order fields entropy specs (aggs worker) s
  crashes : ∀ {crash}, run.ending = .crashed crash →
    Coordinator.fits run.coordinator.settings.workers = false

/-- A run that ends well. -/
theorem Run.Reduces.of_finished {run : Run σ} {specs : List RowSpec} {aggs : Nat → List (Aggregator σ)}
    {results : Results} {drawn : List Row} (hending : run.ending = .finished results)
    (hgood : ∀ spec ∈ specs, Good order fields entropy Ss spec)
    (hperm : drawn.Perm (specs.map (rowOf order fields entropy))) (hsums : SumsUp Ss drawn results)
    (hown : Copies.Unbroken run.coordinator.configured)
    (hworkers : ∀ copies ∈ run.workerCopies, Copies.Unbroken copies) :
    run.Reduces order fields entropy Ss specs aggs := by
  refine ⟨?_, hown, hworkers, ?_, ?_, ?_⟩
  · intro results' hfinished
    cases hending.symm.trans hfinished
    exact ⟨hgood, drawn, hperm, hsums⟩
  · simp [hending]
  · simp [hending]
  · simp [hending]

namespace Coordinator

variable {c : Coordinator σ} {rows : RowIds.Stream} {settle : Pool.Settling σ} {h : Pool.History σ}
  {p : Pool σ} {all : List Batch}

/-- A run on the calling thread. -/
theorem runInline_reduces (hfields : selectFields c.order c.configured = .ok fields)
    (hcopies : CopiesOf Ss c.configured) (hfit : Copies.Fit Ss (Copies.aggregators c.configured))
    (hfresh : Copies.Unbroken c.configured) (hsound : rows.Sound) (hremaining : 0 < rows.remaining)
    (hcount : rows.remaining < UInt64.size) :
    (c.runInline entropy rows).Reduces c.order fields entropy Ss rows.toList
      fun _ => Copies.aggregators c.configured := by
  obtain ⟨hcountable, bs, hgives, hflat, hne, hsome, hlength⟩ :=
    batches_of_rows hsound hremaining hcount c.settings.batchSize.toNat
  obtain ⟨copies, progress, hunbroken, hcases⟩ := Inline.run_reducing hfields hfit hgives hne
    (hflat.symm ▸ hcountable) hlength entropy (.ofTotal c.settings.rows c.settings.verbose)
  have hworkers : ∀ copies' ∈ [copies], Copies.Unbroken copies' := fun copies' hmem =>
    List.mem_singleton.mp hmem ▸ hunbroken
  rw [hflat] at hcases
  rcases hcases with ⟨tally, hrun, hgood, htally⟩ | ⟨s, hrun, hcause⟩
  · have hgroups : bs.map (rowsOf c.order fields entropy) ≠ [] := by simpa using hsome
    have hflatten : (bs.map (rowsOf c.order fields entropy)).flatten =
        rows.toList.map (rowOf c.order fields entropy) := by rw [flatten_rowsOf, hflat]
    have hsum : Summable (bs.map (rowsOf c.order fields entropy)).flatten :=
      hflatten ▸ hcountable.summable
    obtain ⟨results, hreduce, hsums⟩ := htally.reduce hgroups hsum hcopies
    have hown := htally.unbroken_reduce hgroups hsum hcopies hfresh
    rw [runInline, hrun]
    dsimp only
    rcases hr : Copies.reduce c.configured tally with ⟨r, configured⟩
    rw [hr] at hreduce hown
    cases hreduce
    exact .of_finished rfl hgood (.of_eq hflatten) hsums hown hworkers
  · rw [runInline, hrun]
    refine ⟨?_, hfresh, hworkers, ?_, ?_, ?_⟩
    · simp
    · simp
    · intro worker info hfailed
      cases hfailed
      exact ⟨s, rfl, hcause⟩
    · simp

/-- What a run on a pool leaves of the coordinator's own copies. -/
theorem configured_ofPool (c : Coordinator σ) (p : Pool σ) : (c.ofPool p).coordinator.configured =
    match p.outcome? with
    | some (.ok ()) => (Copies.reduce c.configured p.tally).2
    | _ => c.configured := by
  rw [ofPool]
  rcases p.outcome? with _ | _ | ⟨⟩ <;> rfl

/-- A run on a pool, in whatever state the pool is. -/
theorem ofPool_reduces
    (hp : Pool.Reaches (c.setup entropy settle) (c.pool entropy settle rows) h p)
    (hfitting : (c.setup entropy settle).Fitting fields Ss) (hfresh : Copies.Unbroken c.configured)
    (hload : Pool.Workload (.ofSize rows c.settings.batchSize.toNat) c.settings.workers
      (.ofTotal c.settings.rows c.settings.verbose) all) (hsome : all ≠ []) :
    (c.ofPool p).Reduces c.order fields entropy Ss (all.flatMap Batch.rows)
      fun worker => Copies.aggregators ((c.setup entropy settle).given worker) := by
  have hreduced := hp.reduced hfitting hload
  have hworkers : ∀ copies ∈ (c.ofPool p).workerCopies, Copies.Unbroken copies := by
    intro copies hcopies
    obtain ⟨w, hw, rfl⟩ := List.mem_map.mp hcopies
    exact hreduced.unbroken w hw
  have hending := ending_ofPool c p
  have hown := configured_ofPool c p
  cases ho : p.outcome? with
  | none =>
    -- a run that has not come to an end
    rw [ho] at hending hown
    refine ⟨?_, hown ▸ hfresh, hworkers, ?_, ?_, ?_⟩ <;> simp [hending]
  | some outcome =>
    have hc := Pool.control_of_outcome ho
    rw [ho] at hending hown
    rcases outcome with error | ⟨⟩
    · -- a run that was given up, and there is a good reason for that
      have hverdict : p.verdict? = some error := by rw [Pool.verdict?, hc]
      have hjust := hp.justified hload hverdict
      refine ⟨?_, hown ▸ hfresh, hworkers, ?_, ?_, ?_⟩
      · simp [hending]
      · rw [hending]
        intro f hf
        cases hf
        exact hjust
      · rw [hending]
        intro worker info hf
        cases hf
        obtain ⟨s, hs, rfl⟩ := hjust
        exact ⟨s, rfl, hreduced.causes _ hs⟩
      · simp [hending]
    · -- a run in which everything was recorded
      obtain ⟨hgood, groups, hne, htally, hdrawn⟩ :=
        hp.tallies hfitting.configured hreduced.digests hload hsome hc
      have hsum := hload.countable_all.summable.perm hdrawn.symm
      obtain ⟨results, hreduce, hsums⟩ := htally.reduce hne hsum hfitting.configured
      have hunbroken := htally.unbroken_reduce hne hsum hfitting.configured hfresh
      have hfinished : (c.ofPool p).ending = .finished results :=
        hending.trans (congrArg reduced hreduce)
      exact .of_finished hfinished hgood hdrawn hsums (hown ▸ hunbroken) hworkers

/-! ## Starts -/

variable {settings : Settings} {configured : List (Copy σ)}

/-- The row ids of valid settings can be laid out. -/
theorem rowStream_of_validate {aggregators : Nat} (h : settings.validate aggregators = .ok ())
    (ids : Random.Source) : ∃ rows, settings.rowStream ids = .ok rows := by
  obtain ⟨-, -, -, -, hrows⟩ := (settings.validate_iff_stream ids).mp h
  exact hrows

/-- The aggregators that a worker has copies of: on the calling thread those of the coordinator, on a
pool those that the worker is given. -/
def workerAggregators (c : Coordinator σ) (entropy : Entropy) (settle : Pool.Settling σ)
    (worker : Nat) : List (Aggregator σ) :=
  if c.settings.workers = 1 then Copies.aggregators c.configured
  else Copies.aggregators ((c.setup entropy settle).given worker)

theorem workerAggregators_one (hone : c.settings.workers = 1) :
    c.workerAggregators entropy settle = fun _ => Copies.aggregators c.configured :=
  funext fun _ => if_pos hone

theorem workerAggregators_many (hmany : c.settings.workers ≠ 1) :
    c.workerAggregators entropy settle =
      fun worker => Copies.aggregators ((c.setup entropy settle).given worker) :=
  funext fun _ => if_neg hmany

/-- Every start of a validated coordinator. -/
theorem startAmid_reduces (hc : ofSettings settings order configured = .ok c)
    (hcopies : CopiesOf Ss configured) (hfresh : Copies.Unbroken configured)
    (hfields : selectFields order configured = .ok fields) {ids : Random.Source}
    (hrows : settings.rowStream ids = .ok rows)
    (hfit : ∀ worker, Copies.Fit Ss (c.workerAggregators entropy settle worker))
    (schedule : Nat → Pool.Move) (moves : Nat) :
    (c.startAmid ids entropy settle schedule moves).Reduces order fields entropy Ss rows.toList
      (c.workerAggregators entropy settle) := by
  obtain ⟨hvalid, -, rfl⟩ := ofSettings_eq_ok hc
  have hstarted := startAmid_started ⟨settings, order, configured, .filling⟩ ids entropy settle
    schedule moves
  generalize startAmid ⟨settings, order, configured, .filling⟩ ids entropy settle schedule moves =
    run at hstarted
  cases hstarted with
  | again late => exact absurd rfl late
  | unlaid _ laid => cases hrows.symm.trans laid
  | crowded _ _ many room =>
    have hnone : ∀ copies ∈ ([] : List (List (Copy σ))), Copies.Unbroken copies := by simp
    refine ⟨?_, hfresh, hnone, ?_, ?_, fun _ => room⟩ <;> simp [refused]
  | inline _ laid one =>
    cases hrows.symm.trans laid
    rw [workerAggregators_one one] at hfit ⊢
    obtain ⟨hsound, hremaining⟩ := RowIds.Plan.stream_sound hrows
    exact runInline_reduces (c := ⟨settings, order, configured, .filling⟩) hfields hcopies (hfit 0)
      hfresh hsound (hremaining ▸ rows_pos hvalid) (hremaining ▸ settings.numRows.toNat_lt)
  | pooled _ laid many _ reached =>
    cases hrows.symm.trans laid
    rw [workerAggregators_many many] at hfit ⊢
    obtain ⟨all, hload, hflat, hsum⟩ := workload_of_run hrows (workers_pos hvalid)
    have hsome := batches_ne_nil hvalid hsum
    rw [← hflat]
    exact ofPool_reduces (c := ⟨settings, order, configured, .filling⟩) reached
      ⟨hfields, hcopies, hfit⟩ hfresh hload hsome

end Coordinator

end SeededRows
