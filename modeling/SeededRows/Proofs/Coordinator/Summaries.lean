/-
  SeededRows.Proofs.Coordinator.Summaries

  The results of a run, summarized. A run that ends well has a result for each of its descriptions,
  in their order and under the names of their aggregators, and each of them is of the kind that its
  own description expects, so all of them can be summarized. The summaries show all that was
  accumulated of the rows of the run. A description that expects another kind, or a place where there
  is no result, is refused.
-/
import SeededRows.Proofs.Aggregator.Summaries
import SeededRows.Proofs.Coordinator.Conservation

namespace SeededRows

/-- Results with a summary for each description: an accumulator of the rows stands in its place, and
the summary shows it. -/
structure Results.Summarized (results : Results) (disk : Disk) (specs : List AggregatorSpec)
    (rows : List Row) : Prop where
  names : results.names = specs.map fun spec => (spec.build disk).name
  summary : ∀ {i : Nat} {spec : AggregatorSpec}, specs[i]? = some spec →
    ∃ (v : spec.kind.Carrier) (doc : Json), results.get? spec.kind i = some v ∧ spec.Gathers rows v ∧
      spec.summarize results i = .ok doc ∧ spec.Shows v doc

theorem Results.Summarized.length {results : Results} {disk : Disk} {specs : List AggregatorSpec}
    {rows : List Row} (h : results.Summarized disk specs rows) : results.length = specs.length := by
  have hnames := congrArg List.length h.names
  rwa [Results.names, List.length_map, List.length_map] at hnames

namespace AggregatorSpec

variable {disk : Disk} {specs : List AggregatorSpec} {rows : List Row} {results : Results}

/-- Results have the names of the described aggregators. -/
theorem names_of_sums (hsums : SumsUp (summers disk specs) rows results) (disk' : Disk) :
    results.names = specs.map fun spec => (spec.build disk').name := by
  induction specs generalizing disk results with
  | nil =>
    cases hsums
    rfl
  | cons spec specs ih =>
    cases hsums with
    | cons hentry hrest =>
      exact congrArg₂ List.cons (hentry.1.trans (name_build disk disk' spec)) (ih hrest)

/-- The result in the place of a description is of the kind that it expects. -/
theorem gathered_at (hsums : SumsUp (summers disk specs) rows results)
    (hmaps : ∀ S ∈ summers disk specs, ∀ row ∈ rows, S.summing.Maps row) {i : Nat}
    {spec : AggregatorSpec} (hi : specs[i]? = some spec) :
    ∃ v : spec.kind.Carrier, results.get? spec.kind i = some v ∧ spec.Gathers rows v := by
  obtain ⟨disk', v, hget, hv, -⟩ := result_at hsums hmaps hi
  cases spec <;> exact ⟨v, hget, hv⟩

/-- Results that sum up rows are summarized with these rows, in whatever order. -/
theorem summarized_of_sums (hsums : SumsUp (summers disk specs) rows results)
    (hmaps : ∀ S ∈ summers disk specs, ∀ row ∈ rows, S.summing.Maps row) {others : List Row}
    (hperm : rows.Perm others) : results.Summarized disk specs others where
  names := names_of_sums hsums disk
  summary {i spec} hi := by
    obtain ⟨v, hget, hv⟩ := gathered_at hsums hmaps hi
    refine ⟨v, spec.document v, hget, hv.perm hperm, ?_, spec.shows_document v⟩
    rw [summarize_eq, Results.expect_of_get? hget]
    rfl

end AggregatorSpec

namespace Coordinator

variable {disk : Disk} {specs : List AggregatorSpec} {settings : Settings} {order : FieldOrder}
  {c : Coordinator CsvFiles}

/-- Every run of described aggregators that ends well, on the calling thread or on a pool, can be
summarized: its rows were drawn, it has a result for each description, in order and by name, and
summarizing each result with its own description succeeds and shows all that was accumulated of the
rows. Of collected rows that is an entry for each id, under its decimal text and with the values of
the fields in their order; of matching rows a list of their ids, each once, in increasing order; of
a histogram every text with its count. Summarizing fails, whatever the results, where there is none
and where the result is of a kind that the description does not expect. -/
theorem runs_summarized
    (hc : ofSettings settings order (AggregatorSpec.configuredAll disk specs) = .ok c)
    (ids : Random.Source) (entropy : Entropy) (settle : Pool.Settling CsvFiles)
    (hgiven : ∀ worker,
      List.Forall₂ AggregatorSpec.Describes specs (c.workerAggregators entropy settle worker)) :
    (∃ fields rows, selectFields order (AggregatorSpec.configuredAll disk specs) = .ok fields ∧
      settings.rowStream ids = .ok rows ∧ rows.toList.length = settings.rows ∧
      ∀ schedule moves results,
        (c.startAmid ids entropy settle schedule moves).ending = .finished results →
        ∃ drawn, List.Forall₂ (fun spec row => drawRow order fields entropy spec = .ok row)
            rows.toList drawn ∧ results.Summarized disk specs drawn) ∧
    ∀ (results : Results) (spec : AggregatorSpec) (i : Nat),
      (results.length ≤ i → spec.summarize results i = refuse (.noResult i results.length)) ∧
      ∀ name a, results[i]? = some (name, a) → a.kind ≠ spec.kind →
        spec.summarize results i = refuse (.resultKind name spec.kind) := by
  constructor
  · obtain ⟨hvalid, ⟨fields, hfields⟩, -⟩ := ofSettings_eq_ok hc
    obtain ⟨rows, hrows⟩ := rowStream_of_validate hvalid ids
    obtain ⟨hsound, hremaining⟩ := RowIds.Plan.stream_sound hrows
    refine ⟨fields, rows, hfields, hrows, hsound.length_toList.trans hremaining, ?_⟩
    intro schedule moves results hfinished
    have hreduces := startAmid_reduces hc (AggregatorSpec.configuredAll_isOf disk specs)
      (AggregatorSpec.configuredAll_unbroken disk specs) hfields hrows
      (fun worker => AggregatorSpec.fit_of_describes (hgiven worker) disk) schedule moves
    obtain ⟨hgood, drawn, hperm, hsums⟩ := hreduces.sums hfinished
    refine ⟨rows.toList.map (rowOf order fields entropy), ?_, ?_⟩
    · rw [List.forall₂_map_right_iff, List.forall₂_same]
      exact fun spec hspec => (hgood spec hspec).drawn
    · exact AggregatorSpec.summarized_of_sums hsums (maps_of_perm hgood hperm) hperm
  · intro results spec i
    constructor
    · intro hpast
      rw [AggregatorSpec.summarize_eq, Results.expect_past hpast]
      rfl
    · intro name a hi hkind
      rw [AggregatorSpec.summarize_eq, Results.expect_other hi hkind]
      rfl

/-- The results of a pair of workers: four of them, the first of which is the number of rows, while the
second is no number and there is no fifth. -/
theorem runs_summarized_pair : ∃ results : Results,
    (switchPair.startAmid (.ofSeed 0) (fun _ => .ofSeed 0) .alike (Pool.rounds 2) 47).ending =
      .finished results ∧
    results.names = ["row_counter", "field_histogram", "row_collector", "match_collector"] ∧
    AggregatorSpec.count.summarize results 0 = .ok (.int 1) ∧
    AggregatorSpec.count.summarize results 1 = refuse (.resultKind "field_histogram" .count) ∧
    AggregatorSpec.count.summarize results 4 = refuse (.noResult 4 4) := by
  have hc : ofSettings pairSettings switchPair.order (AggregatorSpec.configuredAll [] switchSpecs) =
      .ok switchPair := rfl
  obtain ⟨⟨fields, rows, -, -, hlength, hruns⟩, hrefuses⟩ := runs_summarized hc (.ofSeed 0)
    (fun _ => .ofSeed 0) .alike (describes_alike rfl _)
  obtain ⟨results, hfinished⟩ : ∃ results, (switchPair.startAmid (.ofSeed 0) (fun _ => .ofSeed 0)
    .alike (Pool.rounds 2) 47).ending = .finished results := ⟨_, rfl⟩
  obtain ⟨drawn, hdrawn, hsummarized⟩ := hruns (Pool.rounds 2) 47 results hfinished
  have hnames : results.names =
      ["row_counter", "field_histogram", "row_collector", "match_collector"] := hsummarized.names
  have hfour : results.length = 4 := hsummarized.length
  have hfirst : switchSpecs[0]? = some .count := rfl
  have hsecond : switchSpecs[1]? = some (.histogram "switch") := rfl
  have hone : drawn.length = 1 := hdrawn.length_eq.symm.trans hlength
  obtain ⟨n, doc, -, hcounts, hsummary, hshows⟩ := hsummarized.summary hfirst
  obtain ⟨h, -, hget, -⟩ := hsummarized.summary hsecond
  obtain ⟨⟨name, a⟩, ha, hkind⟩ := Option.bind_eq_some_iff.mp hget
  have hother : a.kind ≠ .count := by
    intro hcount
    have hnone : a.as? .histogram = none := Accumulator.as?_eq_none_iff.mpr (by rw [hcount]; decide)
    cases hnone.symm.trans hkind
  have hname : results.names[1]? = some name := by rw [Results.names, List.getElem?_map, ha]; rfl
  rw [hnames] at hname
  cases hname
  refine ⟨results, hfinished, hnames, ?_, (hrefuses results .count 1).2 _ a ha hother, ?_⟩
  · obtain rfl : n = drawn.length := hcounts
    obtain rfl : doc = .int drawn.length := hshows
    rw [hsummary, hone]
    rfl
  · rw [(hrefuses results .count 4).1 (Nat.le_of_eq hfour), hfour]

end Coordinator

end SeededRows
