/-
  SeededRows.Proofs.Coordinator.Conservation

  What is conserved in a run with stock aggregators. Results of a run that ends well are accumulators
  of the same rows, which are those of the run, so they agree: counts are the number of rows, tables
  have the ids of the rows, histograms add up, and the ids of a match collector are those that a
  histogram counts and a collector shows. In no run, however it ends, does a reduction of a stock
  aggregator stop. That the ids of a run differ is what keeps a collector from refusing a row, and
  that its rows can be counted keeps a count from overflowing.
-/
import SeededRows.Proofs.Aggregator.Conservation
import SeededRows.Proofs.Coordinator.Reductions

namespace SeededRows

/-! ## Results that agree -/

/-- Results of described aggregators that agree with each other and with the ids of the rows. -/
structure Results.Conserved (results : Results) (specs : List AggregatorSpec) (ids : List UInt64) :
    Prop where
  length : results.length = specs.length
  counted : ∀ {i : Nat}, specs[i]? = some .count → results.get? .count i = some ids.length
  written : ∀ {i : Nat} {dir : String} {fields : List String} {stem : Option String},
    specs[i]? = some (.csv dir fields stem) →
    results.get? .count i = some ids.length
  collected : ∀ {i : Nat} {fields : List String}, specs[i]? = some (.collect fields) →
    ∃ table : RowTable, results.get? .rows i = some table ∧ table.keys.Perm ids
  added : ∀ {i : Nat} {field : String}, specs[i]? = some (.histogram field) →
    ∃ h : Histogram, results.get? .histogram i = some h ∧ (h.toList.map Prod.snd).sum = ids.length
  /-- A match collector keeps as many ids as a histogram of the field counts. -/
  sized : ∀ {i j : Nat} {field value : String}, specs[i]? = some (.matches field value) →
    specs[j]? = some (.histogram field) → ∃ (kept : IdSet) (h : Histogram),
      results.get? .ids i = some kept ∧ results.get? .histogram j = some h ∧
        kept.size = h.getD value 0
  /-- It keeps the ids under which a collector of the field has a value with that text. -/
  shown : ∀ {i j k : Nat} {field value : String} {fields : List String}, specs[i]? = some (.matches field value) →
    specs[j]? = some (.collect fields) → fields[k]? = some field →
      ∃ (kept : IdSet) (table : RowTable), results.get? .ids i = some kept ∧
        results.get? .rows j = some table ∧ ∀ id, id ∈ kept ↔
          ∃ (vs : List Value) (v : Value), table[id]? = some vs ∧ vs[k]? = some v ∧ v.cell = value

/-- The order of the ids does not matter. -/
theorem Results.Conserved.perm {results : Results} {specs : List AggregatorSpec} {ids ids' : List UInt64}
    (h : results.Conserved specs ids) (hperm : ids.Perm ids') : results.Conserved specs ids' where
  length := h.length
  counted hi := hperm.length_eq ▸ h.counted hi
  written hi := hperm.length_eq ▸ h.written hi
  collected hi := (h.collected hi).imp fun _ hi => ⟨hi.1, hi.2.trans hperm⟩
  added hi := hperm.length_eq ▸ h.added hi
  sized := h.sized
  shown := h.shown

namespace AggregatorSpec

variable {disk : Disk} {specs : List AggregatorSpec} {rows : List Row} {results : Results}

/-- The result in the place of a description is an accumulator of the rows, all of which can be
mapped. -/
theorem result_at (hsums : SumsUp (summers disk specs) rows results)
    (hmaps : ∀ S ∈ summers disk specs, ∀ row ∈ rows, S.summing.Maps row) {i : Nat}
    {spec : AggregatorSpec} (hi : specs[i]? = some spec) : ∃ disk' v,
    results.get? (spec.build disk').output i = some v ∧ (spec.summing disk').Sums rows v ∧
      ∀ row ∈ rows, (spec.summing disk').Maps row := by
  induction specs generalizing disk results i with
  | nil => cases hi
  | cons first specs ih =>
    cases hsums with
    | @cons _ entry _ results hentry hrest =>
      cases i with
      | zero =>
        cases hi
        obtain ⟨name, acc⟩ := entry
        obtain ⟨-, v, rfl, hv⟩ := hentry
        exact ⟨disk, v, Accumulator.as?_mk _ v, hv, hmaps _ List.mem_cons_self⟩
      | succ i => exact ih hrest (fun S hS => hmaps S (List.mem_cons_of_mem _ hS)) hi

theorem length_summers (disk : Disk) (specs : List AggregatorSpec) :
    (summers disk specs).length = specs.length := by
  induction specs generalizing disk with
  | nil => rfl
  | cons spec specs ih => exact congrArg (· + 1) (ih (spec.leaves disk))

/-- Results that sum up the same rows agree. -/
theorem conserved_of_sums (hsums : SumsUp (summers disk specs) rows results)
    (hmaps : ∀ S ∈ summers disk specs, ∀ row ∈ rows, S.summing.Maps row)
    (hdistinct : (rows.map Row.id).Nodup) : results.Conserved specs (rows.map Row.id) where
  length := (List.Forall₂.length_eq hsums).symm.trans (length_summers disk specs)
  counted hi := by
    obtain ⟨disk', n, hget, hn, -⟩ := result_at hsums hmaps hi
    rw [List.length_map]
    exact hget.trans (congrArg some hn)
  written hi := by
    obtain ⟨disk', n, hget, hn, -⟩ := result_at hsums hmaps hi
    rw [List.length_map]
    exact hget.trans (congrArg some hn)
  collected hi := by
    obtain ⟨disk', table, hget, htable, hrows⟩ := result_at hsums hmaps hi
    exact ⟨table, hget, Aggregator.keys_collected hdistinct hrows htable⟩
  added hi := by
    obtain ⟨disk', h, hget, hcounts, hrows⟩ := result_at hsums hmaps hi
    rw [List.length_map]
    exact ⟨h, hget, Aggregator.sum_histogram hrows hcounts⟩
  sized hi hj := by
    obtain ⟨disk', kept, hget, hkept, -⟩ := result_at hsums hmaps hi
    obtain ⟨disk'', h, hget', hcounts, -⟩ := result_at hsums hmaps hj
    have hsize := Aggregator.size_matching hdistinct hkept
    exact ⟨kept, h, hget, hget', hsize.trans (Aggregator.getD_histogram hcounts _).symm⟩
  shown hi hj hk := by
    obtain ⟨disk', kept, hget, hkept, -⟩ := result_at hsums hmaps hi
    obtain ⟨disk'', table, hget', htable, hrows⟩ := result_at hsums hmaps hj
    exact ⟨kept, table, hget, hget', Aggregator.mem_matching hk hrows hkept htable⟩

/-- Aggregators that are described fit the described ones. -/
theorem fit_of_describes {aggs : List (Aggregator CsvFiles)}
    (h : List.Forall₂ Describes specs aggs) (disk : Disk) : Copies.Fit (summers disk specs) aggs := by
  induction h generalizing disk with
  | nil => exact .nil
  | cons hspec _ ih => exact .cons (hspec.fits disk) (ih _)

/-- None of them stops in a hook with what a reduction stops with. -/
theorem stops_of_describes {aggs : List (Aggregator CsvFiles)} (h : List.Forall₂ Describes specs aggs)
    {a : Aggregator CsvFiles} (ha : a ∈ aggs) {stop : Stop} (hstop : a.Stops stop) :
    ¬ stop.OfReduction := by
  induction h with
  | nil => cases ha
  | cons hspec _ ih =>
    rcases List.mem_cons.mp ha with rfl | ha
    · obtain ⟨-, -, -, -, -, -, hnever⟩ := hspec
      exact hnever hstop
    · exact ih ha

theorem configuredAll_describes (disk : Disk) (specs : List AggregatorSpec) :
    List.Forall₂ Describes specs (Copies.aggregators (configuredAll disk specs)) := by
  induction specs generalizing disk with
  | nil => exact .nil
  | cons spec specs ih => exact .cons (describes_build disk spec) (ih _)

/-- Nothing was called on the configured copies yet. -/
theorem configuredAll_unbroken (disk : Disk) (specs : List AggregatorSpec) :
    Copies.Unbroken (configuredAll disk specs) := by
  induction specs generalizing disk with
  | nil => exact fun c hc => nomatch hc
  | cons spec specs ih =>
    intro c hc
    rcases List.mem_cons.mp hc with rfl | hc
    · exact Copy.unbroken_of_fresh rfl
    · exact ih _ c hc

end AggregatorSpec

/-! ## Runs -/

namespace Coordinator

/-- No start changes the settings of a coordinator. -/
theorem settings_startAmid {σ : Type} (c : Coordinator σ) (ids : Random.Source) (entropy : Entropy)
    (settle : Pool.Settling σ) (schedule : Nat → Pool.Move) (moves : Nat) :
    (c.startAmid ids entropy settle schedule moves).coordinator.settings = c.settings := by
  have hstarted := c.startAmid_started ids entropy settle schedule moves
  generalize c.startAmid ids entropy settle schedule moves = run at hstarted
  cases hstarted with
  | again | unlaid | crowded | pooled => rfl
  | @inline rows =>
    rw [runInline]
    rcases Inline.run c.order c.configured entropy (.ofSize rows c.settings.batchSize.toNat)
      (.ofTotal c.settings.rows c.settings.verbose) with ⟨tally | _ | info, copies, progress⟩
    · dsimp only
      rcases Copies.reduce c.configured tally with ⟨(f | crash) | results, configured⟩ <;> rfl
    · rfl
    · rfl

variable {disk : Disk} {specs : List AggregatorSpec} {settings : Settings} {order : FieldOrder}
  {fields : List String} {c : Coordinator CsvFiles} {entropy : Entropy}

/-- Workers that all find the same outside have the described aggregators. -/
theorem describes_alike (hc : c.configured = AggregatorSpec.configuredAll disk specs)
    (entropy : Entropy) (worker : Nat) :
    List.Forall₂ AggregatorSpec.Describes specs (c.workerAggregators entropy .alike worker) := by
  have hdescribes := AggregatorSpec.configuredAll_describes disk specs
  rw [← hc] at hdescribes
  rw [workerAggregators]
  split
  · exact hdescribes
  · rw [Pool.Setup.given_alike rfl, Copies.aggregators_clones]
    exact hdescribes

/-- The rows of good specs, in whatever order, can be mapped. -/
theorem maps_of_perm {rowSpecs : List RowSpec} {drawn : List Row}
    (hgood : ∀ spec ∈ rowSpecs, Good order fields entropy (AggregatorSpec.summers disk specs) spec)
    (hperm : drawn.Perm (rowSpecs.map (rowOf order fields entropy))) :
    ∀ S ∈ AggregatorSpec.summers disk specs, ∀ row ∈ drawn, S.summing.Maps row := by
  intro S hS row hrow
  obtain ⟨spec, hspec, rfl⟩ := List.mem_map.mp (hperm.mem_iff.mp hrow)
  exact (hgood spec hspec).maps S hS

/-- Results that sum up the rows of good specs, in whatever order, agree. -/
theorem conserved_of_perm {rowSpecs : List RowSpec} {drawn : List Row} {results : Results}
    (hnodup : (rowSpecs.map RowSpec.id).Nodup)
    (hgood : ∀ spec ∈ rowSpecs, Good order fields entropy (AggregatorSpec.summers disk specs) spec)
    (hperm : drawn.Perm (rowSpecs.map (rowOf order fields entropy)))
    (hsums : SumsUp (AggregatorSpec.summers disk specs) drawn results) :
    results.Conserved specs (rowSpecs.map RowSpec.id) := by
  have hids : (drawn.map Row.id).Perm (rowSpecs.map RowSpec.id) := by
    have hmap := hperm.map Row.id
    rw [List.map_map] at hmap
    exact hmap.trans (.of_eq (List.map_congr_left fun spec _ => rowOf_id spec))
  have hmaps := maps_of_perm hgood hperm
  exact (AggregatorSpec.conserved_of_sums hsums hmaps (hids.nodup_iff.mpr hnodup)).perm hids

/-- If what stops described aggregators, or the drawing of rows for them, is what a reduction stops
with, it came from a row. -/
theorem draw_of_ofReduction {rowSpecs : List RowSpec} {aggs : List (Aggregator CsvFiles)} {stop : Stop}
    (haggs : List.Forall₂ AggregatorSpec.Describes specs aggs)
    (hcause : Engine.Cause order fields entropy rowSpecs aggs stop) (hstop : stop.OfReduction) :
    ∃ spec ∈ rowSpecs, drawRow order fields entropy spec = .error stop := by
  cases hcause with
  | draw among stops => exact ⟨_, among, stops⟩
  | hook among stops => exact absurd hstop (AggregatorSpec.stops_of_describes haggs among stops)

/-- In every run of described aggregators, on the calling thread or on a pool, in whatever order
workers and coordinator move, and with whatever the workers meet outside: results agree, no
reduction stops, neither on a copy of a worker nor on one of the coordinator, and the coordinator
itself fails for no fault and crashes only for want of room for its workers. Whatever stops a worker
is a row that cannot be drawn, or a setup, a mapping or a teardown; unless a field brings that up, it
is never that a row was collected twice, that there was nothing to reduce or that a count
overflowed. -/
theorem results_conserved
    (hc : ofSettings settings order (AggregatorSpec.configuredAll disk specs) = .ok c)
    (ids : Random.Source) (entropy : Entropy) (settle : Pool.Settling CsvFiles)
    (hgiven : ∀ worker,
      List.Forall₂ AggregatorSpec.Describes specs (c.workerAggregators entropy settle worker)) :
    ∃ fields rows, selectFields order (AggregatorSpec.configuredAll disk specs) = .ok fields ∧
      settings.rowStream ids = .ok rows ∧ rows.toList.length = settings.rows ∧
      (∀ schedule moves run, c.startAmid ids entropy settle schedule moves = run →
        run.coordinator.settings = settings ∧
        run.Reduces order fields entropy (AggregatorSpec.summers disk specs) rows.toList
          (c.workerAggregators entropy settle) ∧
        ∀ results, run.ending = .finished results →
          results.Conserved specs (rows.toList.map RowSpec.id)) ∧
      (settings.workers ≠ 1 → ∀ h p,
        Pool.Reaches (c.setup entropy settle) (c.pool entropy settle rows) h p →
        ∀ worker stop, (worker, stop) ∈ Pool.stops (c.setup entropy settle) h →
          Engine.Cause order fields entropy rows.toList (c.workerAggregators entropy settle worker)
            stop) ∧
      ∀ worker stop, Engine.Cause order fields entropy rows.toList
          (c.workerAggregators entropy settle worker) stop → stop.OfReduction →
        ∃ spec ∈ rows.toList, drawRow order fields entropy spec = .error stop := by
  obtain ⟨hvalid, ⟨fields, hfields⟩, hmade⟩ := ofSettings_eq_ok hc
  obtain ⟨rows, hrows⟩ := rowStream_of_validate hvalid ids
  obtain ⟨hsound, hremaining⟩ := RowIds.Plan.stream_sound hrows
  have hcopies := AggregatorSpec.configuredAll_isOf disk specs
  have hfit (worker : Nat) : Copies.Fit (AggregatorSpec.summers disk specs)
      (c.workerAggregators entropy settle worker) := AggregatorSpec.fit_of_describes (hgiven worker) disk
  refine ⟨fields, rows, hfields, hrows, hsound.length_toList.trans hremaining, ?_, ?_, ?_⟩
  · rintro schedule moves run rfl
    have hreduces := startAmid_reduces hc hcopies (AggregatorSpec.configuredAll_unbroken disk specs)
      hfields hrows hfit schedule moves
    refine ⟨?_, hreduces, ?_⟩
    · rw [settings_startAmid, hmade]
    · intro results hfinished
      obtain ⟨hgood, drawn, hperm, hsums⟩ := hreduces.sums hfinished
      exact conserved_of_perm hsound.ids_nodup hgood hperm hsums
  · intro hmany h p hp worker stop hstop
    subst hmade
    rw [workerAggregators_many hmany] at hfit ⊢
    obtain ⟨all, hload, hflat, -⟩ := workload_of_run hrows (workers_pos hvalid)
    rw [← hflat]
    exact (hp.reduced ⟨hfields, hcopies, hfit⟩ hload).causes _ hstop
  · intro worker stop
    exact draw_of_ofReduction (hgiven worker)

/-- One aggregator of each kind that needs no files. -/
def switchSpecs : List AggregatorSpec :=
  [.count, .histogram "switch", .collect ["id", "switch"], .matches "switch" "on"]

/-- Two workers for a row whose switch is on. -/
def switchPair : Coordinator CsvFiles :=
  ⟨pairSettings, ⟨[("switch", fun _ => pure (.text "on"))]⟩,
    AggregatorSpec.configuredAll [] switchSpecs, .filling⟩

/-- A run of a pair of workers ends well, and its results agree. -/
theorem results_conserved_pair : ∃ run : Run CsvFiles, ∃ results ids,
    switchPair.startAmid (.ofSeed 0) (fun _ => .ofSeed 0) .alike (Pool.rounds 2) 47 = run ∧
      run.ending = .finished results ∧ ids.length = 1 ∧ results.Conserved switchSpecs ids ∧
      results.get? .count 0 = some (1 : Nat) := by
  have hc : ofSettings pairSettings switchPair.order (AggregatorSpec.configuredAll [] switchSpecs) =
      .ok switchPair := rfl
  obtain ⟨fields, rows, -, -, hlength, hruns, -⟩ := results_conserved hc (.ofSeed 0)
    (fun _ => .ofSeed 0) .alike (describes_alike rfl _)
  have hids : (rows.toList.map RowSpec.id).length = 1 := by rw [List.length_map, hlength]; rfl
  obtain ⟨results, hfinished⟩ : ∃ results, (switchPair.startAmid (.ofSeed 0) (fun _ => .ofSeed 0)
    .alike (Pool.rounds 2) 47).ending = .finished results := ⟨_, rfl⟩
  obtain ⟨-, -, hconserved⟩ := hruns (Pool.rounds 2) 47 _ rfl
  have hagree := hconserved results hfinished
  exact ⟨_, results, _, rfl, hfinished, hids, hagree, hids ▸ hagree.counted rfl⟩

end Coordinator

end SeededRows
