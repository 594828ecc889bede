/-
  SeededRows.Proofs.Coordinator.Growth

  Runs that grow. A run with a seed that asks for more rows, but for no more stripes, keeps the rows
  it had: the longer stream begins with the shorter one, and a row is drawn from its spec alone. What
  a collector makes of the shorter run is therefore what it makes of the longer one, restricted to the
  first ids, however either run is cut into batches and shared out among workers.
-/
import SeededRows.Proofs.Coordinator.Agreement
import SeededRows.Proofs.Coordinator.Places
import SeededRows.Proofs.RowIds.Growth

namespace SeededRows

variable {σ : Type}

namespace Coordinator

variable {settings : Settings} {order : FieldOrder} {configured : List (Copy σ)} {place : Nat}
  {fields : List String} {results : Results}

/-! ## Results -/

/-- These are the results of a start that ended well, of some number of moves in some order and amid
some entropy, with an aggregator that the coordinator and all workers have in a place. -/
def FinishesWith (settings : Settings) (order : FieldOrder) (configured : List (Copy σ)) (place : Nat)
    (a : Aggregator σ) (results : Results) : Prop :=
  ∃ c ids entropy settle schedule moves, ofSettings settings order configured = .ok c ∧
    c.Assigns entropy settle place a ∧
    (c.startAmid ids entropy settle schedule moves).ending = .finished results

/-- What a collector comes to: the values that were drawn for each spec of the run, by its id. -/
theorem FinishesWith.collected
    (h : FinishesWith settings order configured place (.collect σ fields) results) :
    ∃ ids rows drawn entropy, ∃ table : RowTable, settings.rowStream ids = .ok rows ∧
      selectFields order configured = .ok drawn ∧ results.get? .rows place = some table ∧
      ∀ id vs, table[id]? = some vs ↔ ∃ spec ∈ rows.toList, spec.id = id ∧
        (rowOf order drawn entropy spec).values? fields = some vs := by
  obtain ⟨c, ids, entropy, settle, schedule, moves, hc, ha, hfinished⟩ := h
  obtain ⟨rows, drawn, acc, summed, hrows, hdrawn, hresult, hperm, table, rfl, htable⟩ :=
    result_sums (S := ⟨.collect σ fields, Aggregator.collectSumming σ fields⟩) hc ha hfinished
  refine ⟨ids, rows, drawn, entropy, table, hrows, hdrawn, ?_, ?_⟩
  · rw [Results.get?, hresult]
    exact Accumulator.as?_mk .rows table
  · intro id vs
    rw [htable id vs]
    simp only [hperm.mem_iff, List.mem_map, exists_exists_and_eq_and, rowOf_id]

/-! ## Growth -/

variable {plan : RowIds.Plan} {n m : Nat}

/-- The tables that rows come to, if one list of rows begins with the other. -/
theorem table_take {specs : List RowSpec} (hnodup : (specs.map RowSpec.id).Nodup)
    (values : RowSpec → Option (List Value)) {table table' : RowTable}
    (htable : ∀ id vs, table[id]? = some vs ↔ ∃ spec ∈ specs.take n, spec.id = id ∧ values spec = some vs)
    (htable' : ∀ id vs, table'[id]? = some vs ↔ ∃ spec ∈ specs, spec.id = id ∧ values spec = some vs) :
    table = table'.filter fun id _ => ((specs.take n).map RowSpec.id).contains id := by
  refine Std.ExtTreeMap.ext_getElem? fun id => Option.ext fun vs => ?_
  rw [Std.ExtTreeMap.getElem?_filter', Option.filter_eq_some_iff, htable, htable', List.contains_iff_mem]
  constructor
  · rintro ⟨spec, hspec, rfl, hvs⟩
    exact ⟨⟨spec, List.mem_of_mem_take hspec, rfl, hvs⟩, List.mem_map_of_mem hspec⟩
  · rintro ⟨⟨spec, hspec, rfl, hvs⟩, hid⟩
    -- there is one row of that id only, so it is among the first ones
    obtain ⟨first, hfirst, hsame⟩ := List.mem_map.mp hid
    obtain rfl : first = spec := List.inj_on_of_nodup_map hnodup (List.mem_of_mem_take hfirst) hspec hsame
    exact ⟨first, hfirst, rfl, hvs⟩

/-- Asking for more rows within the same stripes only appends rows. The stream of a plan with a seed
for fewer rows is the beginning of the one for more rows, with the same ids and seeds. So whenever two
runs of the plan end well that differ in the number of rows, and perhaps in their workers and batches,
a collector comes in the shorter run to what it comes to in the longer one, restricted to the ids that
the shorter run has. -/
theorem growth_appends (hseed : plan.seed ≠ none) (hle : n ≤ m)
    (hstripes : n ⌈/⌉ plan.width.toNat = m ⌈/⌉ plan.width.toNat) :
    (∀ ids ids' rows rows', plan.stream ids n = .ok rows → plan.stream ids' m = .ok rows' →
      RowIds.Yields rows rows.toList ∧ RowIds.Yields rows' rows'.toList ∧
        rows.toList = rows'.toList.take n) ∧
    ∀ (settings settings' : Settings) (order : FieldOrder) (configured : List (Copy σ)) (place : Nat)
      (fields : List String) (results results' : Results),
      settings.plan = plan → settings.rows = n → settings'.plan = plan → settings'.rows = m →
      FinishesWith settings order configured place (.collect σ fields) results →
      FinishesWith settings' order configured place (.collect σ fields) results' →
      ∃ (rows' : RowIds.Stream) (table table' : RowTable), (∀ ids', plan.stream ids' m = .ok rows') ∧
        results.get? .rows place = some table ∧ results'.get? .rows place = some table' ∧
        table = table'.filter fun id _ => ((rows'.toList.take n).map RowSpec.id).contains id := by
  refine ⟨?_, ?_⟩
  · intro ids ids' rows rows' hrows hrows'
    obtain ⟨hsound, -⟩ := RowIds.Plan.stream_sound hrows
    obtain ⟨hsound', -⟩ := RowIds.Plan.stream_sound hrows'
    exact ⟨hsound.yields_toList, hsound'.yields_toList,
      RowIds.Plan.toList_take_of_stripes hseed hrows hrows' hle hstripes⟩
  · rintro settings settings' order configured place fields results results' rfl rfl hplan rfl hrun hrun'
    obtain ⟨ids, rows, drawn, entropy, table, hrows, hdrawn, hget, htable⟩ := hrun.collected
    obtain ⟨ids', rows', drawn', entropy', table', hrows', hdrawn', hget', htable'⟩ := hrun'.collected
    obtain rfl : drawn = drawn' := Except.ok.inj (hdrawn.symm.trans hdrawn')
    rw [Settings.rowStream, hplan] at hrows'
    obtain ⟨hsound', -⟩ := RowIds.Plan.stream_sound hrows'
    have htake := RowIds.Plan.toList_take_of_stripes hseed hrows hrows' hle hstripes
    refine ⟨rows', table, table', ?_, hget, hget', ?_⟩
    · intro ids''
      rw [RowIds.Plan.stream_of_seed hseed ids'' ids', hrows']
    · rw [htake] at htable
      refine table_take hsound'.ids_nodup (fun spec => (rowOf order drawn entropy spec).values? fields)
        htable fun id vs => ?_
      -- rows with seeds are the same in both runs
      rw [htable']
      refine exists_congr fun spec => and_congr_right fun hspec => ?_
      rw [rowOf_of_seed (RowIds.Plan.seed_ne_none hseed hrows' hspec) entropy' entropy]

/-- Some workers and rows of a plan with two rows in a stripe. -/
def growing (workers rows : UInt64) : Settings := ⟨some 5, workers, rows, 1, 2, false⟩

/-- A switch that is on. -/
def switchField : FieldOrder := ⟨[("switch", fun _ => pure (.text "on"))]⟩

/-- A collector of ids and switches. -/
def switchCollector : List (Copy Unit) := [.fresh (.collect Unit ["id", "switch"]) ()]

/-- The collector sums rows. -/
def switchSummer : Summer Unit :=
  ⟨.collect Unit ["id", "switch"], Aggregator.collectSumming Unit ["id", "switch"]⟩

/-- Every row with a switch can be drawn and collected. -/
theorem good_switch (entropy : Entropy) (spec : RowSpec) :
    Good switchField ["switch"] entropy [switchSummer] spec := by
  refine ⟨rfl, ?_⟩
  intro S hS
  rw [List.mem_singleton.mp hS]
  exact ⟨_, rfl⟩

/-- Runs with a switch end well, on the calling thread and on a pair of workers. -/
theorem growing_finishes (workers rows : UInt64) (hworkers : workers = 1 ∨ workers = 2)
    {c : Coordinator Unit} (hc : ofSettings (growing workers rows) switchField switchCollector = .ok c) :
    ∃ results, FinishesWith (growing workers rows) switchField switchCollector 0
      (.collect Unit ["id", "switch"]) results := by
  obtain ⟨hvalid, -, hmade⟩ := ofSettings_eq_ok hc
  obtain ⟨stream, hstream⟩ := rowStream_of_validate hvalid (.ofSeed 0)
  have hcopies : CopiesOf [switchSummer] switchCollector := .cons rfl .nil
  have hfields : selectFields switchField switchCollector = .ok ["switch"] := rfl
  have hstarts : ∀ copy ∈ switchCollector, copy.clone.start.1 = .ok () := by
    intro copy hcopy
    rw [List.mem_singleton.mp hcopy]
    rfl
  have hconfigured : c.configured[0]? = some (.fresh (.collect Unit ["id", "switch"]) ()) := by
    rw [hmade]
    rfl
  have hassigns : c.Assigns (fun _ => .ofSeed 0) .alike 0 (.collect Unit ["id", "switch"]) :=
    assigns_alike hconfigured
  have hgood : ∀ spec ∈ stream.toList,
      Good switchField ["switch"] (fun _ => .ofSeed 0) [switchSummer] spec :=
    fun spec _ => good_switch _ spec
  rcases hworkers with rfl | rfl
  · have hends : (_ ∧ ∃ results, (c.startWith (.ofSeed 0) (fun _ => .ofSeed 0) (Pool.rounds 2) 0).ending =
        .finished results ∧ _) ∨ _ := ending_startWith_one hc hcopies hfields hstarts rfl hstream
    obtain ⟨-, results, hfinished, -⟩ | ⟨hbad, -⟩ := hends
    · exact ⟨results, c, _, _, _, _, _, hc, hassigns, hfinished⟩
    · exact absurd hgood hbad
  · have hfits : fits 2 = true := by decide
    obtain ⟨moves, hmoves⟩ : ∃ moves, ∀ more, moves ≤ more →
        (c.startWith (.ofSeed 0) (fun _ => .ofSeed 0) (Pool.rounds 2) more).ending ≠ .unfinished :=
      startWith_ends hc (Nat.le_refl 2) (Pool.rounds_fair 2)
    obtain ⟨-, results, -, hfinished, -⟩ | ⟨hbad, -⟩ := ending_startWith_many hc hcopies hfields hstarts
      (Nat.le_refl 2) hfits hstream (hmoves moves (Nat.le_refl moves))
    · exact ⟨results, c, _, _, _, _, _, hc, hassigns, hfinished⟩
    · exact absurd hgood hbad

/-- A row that two workers drew is the first one when the calling thread draws two of the stripe. -/
theorem growth_appends_switch : (growing 2 1).plan.seed ≠ none ∧ 1 ≤ 2 ∧
    1 ⌈/⌉ (growing 2 1).plan.width.toNat = 2 ⌈/⌉ (growing 2 1).plan.width.toNat ∧
    ∃ results results',
      FinishesWith (growing 2 1) switchField switchCollector 0 (.collect Unit ["id", "switch"]) results ∧
      FinishesWith (growing 1 2) switchField switchCollector 0 (.collect Unit ["id", "switch"]) results' ∧
      ∃ (rows' : RowIds.Stream) (table table' : RowTable),
        (∀ ids', (growing 2 1).plan.stream ids' 2 = .ok rows') ∧
        results.get? .rows 0 = some table ∧ results'.get? .rows 0 = some table' ∧
        table = table'.filter fun id _ => ((rows'.toList.take 1).map RowSpec.id).contains id := by
  have hseed : (growing 2 1).plan.seed ≠ none := nofun
  have hstripes : 1 ⌈/⌉ (growing 2 1).plan.width.toNat = 2 ⌈/⌉ (growing 2 1).plan.width.toNat := by
    rw [← RowIds.Plan.ceilDiv_eq, ← RowIds.Plan.ceilDiv_eq]
    rfl
  obtain ⟨results, hrun⟩ := growing_finishes 2 1 (.inr rfl) rfl
  obtain ⟨results', hrun'⟩ := growing_finishes 1 2 (.inl rfl) rfl
  obtain ⟨-, htables⟩ := growth_appends hseed one_le_two hstripes
  exact ⟨hseed, one_le_two, hstripes, results, results', hrun, hrun',
    htables (growing 2 1) (growing 1 2) _ _ _ _ _ _ rfl rfl rfl rfl hrun hrun'⟩

end Coordinator

end SeededRows
