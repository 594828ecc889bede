/-
  SeededRows.Proofs.Coordinator.Places

  The result in the place of one aggregator, whatever stands in the other places. If the aggregator
  sums rows and every worker has it in that place, then each batch of a run that ended well was made
  into an accumulator of its rows there, by whichever worker had it; these are what was reduced in
  the end, in the order in which they came in. So the result is an accumulator of all rows of the run.
-/
import SeededRows.Proofs.Coordinator.Division
import SeededRows.Proofs.Engine.Atomicity

namespace SeededRows

variable {σ : Type} {S : Summer σ} {entropy : Entropy} {place : Nat} {fields : List String}

/-! ## One copy -/

/-- A batch that a copy maps and folds comes to an accumulator of its rows. -/
theorem Summer.ReadyCopy.of_mapReduce {c c' : Copy σ} {rows : List Row} {acc : Accumulator}
    (h : S.ReadyCopy c) (hsum : Summable rows) (hmap : c.mapReduce rows = (.ok acc, c')) :
    S.Accumulates rows acc ∧ S.ReadyCopy c' := by
  obtain ⟨hne, -⟩ := Copy.calls_of_mapReduce hmap
  by_cases hmaps : ∀ row ∈ rows, S.summing.Maps row
  · obtain ⟨acc', c'', hmap', hacc, hready⟩ := h.mapReduce_ok hne hmaps hsum
    cases hmap'.symm.trans hmap
    exact ⟨hacc, hready⟩
  · obtain ⟨stop, c'', hmap'⟩ := h.mapReduce_error hmaps
    cases hmap'.symm.trans hmap

theorem Copies.Fed.getElem? {rows : List Row} {copies copies' : List (Copy σ)} {accs : List Accumulator}
    (h : Fed rows copies accs copies') {c : Copy σ} (hc : copies[place]? = some c) :
    ∃ acc c', accs[place]? = some acc ∧ copies'[place]? = some c' ∧ c.mapReduce rows = (.ok acc, c') := by
  induction h generalizing place with
  | nil => cases hc
  | cons hfirst _ ih =>
    cases place with
    | zero =>
      cases hc
      exact ⟨_, _, rfl, rfl, hfirst⟩
    | succ place => exact ih hc

/-! ## Engines -/

namespace Engine

variable {order : FieldOrder} {given : List (Copy σ)} {share : List WorkedBatch}
  {engine engine' : Engine σ}

/-- A batch that was worked through was drawn and fed to every copy. -/
theorem Draws.fed (h : engine.Draws order fields) {cancelled : Nat → Bool} {specs : List RowSpec}
    {results : List Accumulator}
    (hprocess : engine.process entropy cancelled specs = (.ok results, engine')) :
    Copies.Fed (specs.map (rowOf order fields entropy)) engine.copies results engine'.copies := by
  obtain ⟨rows, copies', hdrawn, hfed, rfl⟩ := Engine.process_eq_ok hprocess
  have hrows : engine.generateRows entropy cancelled 0 specs = .ok rows := by
    rw [← drawing_fst, hdrawn.drawing]
  obtain ⟨rfl, -⟩ := h.generateRows_eq hrows
  exact hfed

/-- In the place of an aggregator that sums rows, an engine makes each of its batches into an
accumulator of the batch's rows, and the copy there stays ready for more. -/
theorem Session.accumulates (h : Session order given entropy share engine)
    (hfields : selectFields order given = .ok fields) {c : Copy σ} (hc : given[place]? = some c)
    (hof : S.IsOf c) (hcount : ∀ made ∈ share, Countable made.batch.rows) :
    (∃ copy, engine.copies[place]? = some copy ∧ S.ReadyCopy copy) ∧
      ∀ made ∈ share, ∃ acc, made.results[place]? = some acc ∧
        S.Accumulates (rowsOf order fields entropy made.batch) acc := by
  induction h with
  | made start =>
    obtain ⟨copy, hcopy, hserved⟩ := forall₂_getElem? (served_of_start start).flip hc
    cases hserved with
    | made start => exact ⟨⟨copy, hcopy, hof.clone.start start⟩, by simp⟩
  | @worked share engine engine' b results cancelled before process ih =>
    obtain ⟨⟨copy, hcopy, hready⟩, hbefore⟩ :=
      ih fun made hmade => hcount made (List.mem_cons_of_mem _ hmade)
    have hb : Countable b.rows := hcount ⟨b, results⟩ List.mem_cons_self
    obtain ⟨acc, copy', hacc, hcopy', hmap⟩ := ((before.draws hfields).fed process).getElem? hcopy
    obtain ⟨haccumulates, hready'⟩ := hready.of_mapReduce hb.summable hmap
    refine ⟨⟨copy', hcopy', hready'⟩, ?_⟩
    intro made hmade
    rcases List.mem_cons.mp hmade with rfl | hmade
    · exact ⟨acc, hacc, haccumulates⟩
    · exact hbefore made hmade

end Engine

namespace Coordinator

variable {c : Coordinator σ} {settle : Pool.Settling σ} {a : Aggregator σ}

/-! ## Workers -/

/-- The coordinator and all workers have the same aggregator in a place, and they draw the same fields;
the aggregators in other places may find different things outside. -/
structure Assigns (c : Coordinator σ) (entropy : Entropy) (settle : Pool.Settling σ) (place : Nat)
    (a : Aggregator σ) : Prop where
  own : ∃ configured, c.configured[place]? = some configured ∧ configured.aggregator = a
  given : ∀ worker given, (c.givenTo entropy settle worker)[place]? = some given → given.aggregator = a
  needed : ∀ worker, (c.givenTo entropy settle worker).map (·.aggregator.fieldsNeeded) =
    c.configured.map (·.aggregator.fieldsNeeded)

/-- Workers that all find the same outside have the coordinator's aggregators. -/
theorem assigns_alike {configured : Copy σ} (hconfigured : c.configured[place]? = some configured) :
    c.Assigns entropy .alike place configured.aggregator := by
  refine ⟨⟨configured, hconfigured, rfl⟩, ?_, ?_⟩
  · intro worker given hgiven
    have haggregator := congrArg (·[place]?) (c.givenTo_alike entropy worker)
    simpa only [List.getElem?_map, hgiven, hconfigured, Option.map_some, Option.some.injEq]
      using haggregator
  · intro worker
    have hneeded := congrArg (List.map Aggregator.fieldsNeeded) (c.givenTo_alike entropy worker)
    rwa [List.map_map, List.map_map] at hneeded

variable {run : Run σ} {all : List Batch} {shares : List (List WorkedBatch)} {tally : Tally}
  {results : Results}

theorem Assigns.place_lt (h : c.Assigns entropy settle place a) : place < c.configured.length := by
  obtain ⟨configured, hconfigured, -⟩ := h.own
  exact (List.getElem?_eq_some_iff.mp hconfigured).1

/-- Whichever worker had a batch, it made an accumulator of its rows. -/
theorem Divides.accumulates (h : c.Divides entropy settle all shares tally run)
    (ha : c.Assigns entropy settle place S.aggregator)
    (hfields : selectFields c.order c.configured = .ok fields) (hcount : ∀ b ∈ all, Countable b.rows) :
    ∀ made ∈ shares.flatten, ∃ acc, made.results[place]? = some acc ∧
      S.Accumulates (rowsOf c.order fields entropy made.batch) acc := by
  intro made hmade
  obtain ⟨share, hshare, hmade⟩ := List.mem_flatten.mp hmade
  obtain ⟨worker, hworker⟩ := List.mem_iff_getElem?.mp hshare
  obtain ⟨engine, engine', -, hsession, -⟩ := h.worked hworker
  have hplace : place < (c.givenTo entropy settle worker).length := by
    rw [length_givenTo]
    exact ha.place_lt
  have hgiven := List.getElem?_eq_getElem hplace
  have hselected : selectFields c.order (c.givenTo entropy settle worker) = .ok fields := by
    rw [selectFields_congr (ha.needed worker)]
    exact hfields
  have hcounts : ∀ made ∈ share, Countable made.batch.rows := by
    intro made hmade
    have hmem : made ∈ shares.flatten := List.mem_flatten.mpr ⟨share, hshare, hmade⟩
    exact hcount _ (h.divided.mem_iff.mp (List.mem_map_of_mem hmem))
  exact (hsession.accumulates hselected hgiven (ha.given worker _ hgiven) hcounts).2 made hmade

/-- What was made of the batches was reduced to an accumulator of all their rows. -/
theorem Divides.sums (h : c.Divides entropy settle all shares tally run)
    (ha : c.Assigns entropy settle place S.aggregator)
    (hfields : selectFields c.order c.configured = .ok fields) (hcount : ∀ b ∈ all, Countable b.rows)
    (hcountAll : Countable (all.flatMap Batch.rows)) (hsome : all ≠ [])
    (hfinished : run.ending = .finished results) :
    ∃ acc summed, results[place]? = some (S.aggregator.name, acc) ∧
      summed.Perm ((all.flatMap Batch.rows).map (rowOf c.order fields entropy)) ∧
      S.Accumulates summed acc := by
  obtain ⟨accs, haccs⟩ := exists_forall₂ (h.accumulates ha hfields hcount)
  obtain ⟨column, acc, own, hmade, hown, hresult, hreduce⟩ := h.reduced hfinished ha.place_lt
  -- the column holds these accumulators, in the order in which they came in
  have hcolumn : column.Perm accs := by
    have hplaces : (shares.flatten.map WorkedBatch.results).map (·[place]?) = accs.map some := by
      rw [List.map_map, ← List.forall₂_eq_eq_eq, List.forall₂_map_left_iff, List.forall₂_map_right_iff]
      exact haccs.imp fun _ _ hacc => hacc.1
    rw [hplaces] at hmade
    exact (List.map_perm_map_iff (Option.some_injective _)).mp hmade
  have hrows : List.Forall₂ S.Accumulates
      (shares.flatten.map fun made => rowsOf c.order fields entropy made.batch) accs :=
    List.forall₂_map_left_iff.mpr (haccs.imp fun _ _ hacc => hacc.2)
  obtain ⟨groups, hgroups, hperm⟩ :=
    List.perm_comp_forall₂ (column.reverse_perm.trans hcolumn) hrows.flip
  have hall : groups.Perm (all.map (rowsOf c.order fields entropy)) := by
    have hdivided := h.divided.map (rowsOf c.order fields entropy)
    rw [List.map_map] at hdivided
    exact hperm.trans hdivided
  have hsummed : groups.flatten.Perm
      ((all.flatMap Batch.rows).map (rowOf c.order fields entropy)) := by
    rw [← flatten_rowsOf]
    exact hall.flatten
  have hne : groups ≠ [] := by
    rintro rfl
    exact hsome (List.map_eq_nil_iff.mp (List.nil_perm.mp hall))
  obtain ⟨configured, hconfigured, haggregator⟩ := ha.own
  obtain ⟨hplace, rfl⟩ := List.getElem?_eq_some_iff.mp hconfigured
  have hof : S.IsOf c.configured[place] := haggregator
  obtain ⟨acc', own', hreduce', hacc', hsame⟩ :=
    hof.reduce hgroups.flip hne (hcountAll.summable.perm hsummed.symm)
  cases hreduce'.symm.trans hreduce
  exact ⟨acc, groups.flatten, by rw [hresult, hsame, haggregator], hsummed, hacc'⟩

/-! ## Runs -/

variable {settings : Settings} {order : FieldOrder} {configured : List (Copy σ)} {ids : Random.Source}

/-- In every run that ends well, on the calling thread or on a pool, the result in the place of an
aggregator that sums rows is its accumulator of the rows of the run. -/
theorem result_sums (hc : ofSettings settings order configured = .ok c)
    (ha : c.Assigns entropy settle place S.aggregator) {schedule : Nat → Pool.Move} {moves : Nat}
    (hfinished : (c.startAmid ids entropy settle schedule moves).ending = .finished results) :
    ∃ rows drawn acc summed, settings.rowStream ids = .ok rows ∧
      selectFields order configured = .ok drawn ∧
      results[place]? = some (S.aggregator.name, acc) ∧
      summed.Perm (rows.toList.map (rowOf order drawn entropy)) ∧ S.Accumulates summed acc := by
  obtain ⟨rows, all, hrows, -, hload, hflat, -, hsome⟩ := workload_of_accepted hc ids
  have hdivides : c.Breaks (c.startAmid ids entropy settle schedule moves) ∨ ∃ shares tally,
      c.Divides entropy settle all shares tally (c.startAmid ids entropy settle schedule moves) :=
    startAmid_divides hc hrows hload hflat schedule moves
  obtain ⟨-, ⟨drawn, hdrawn⟩, rfl⟩ := ofSettings_eq_ok hc
  rcases hdivides with hbreaks | ⟨shares, tally, hdivides⟩
  · exact absurd hfinished (hbreaks.unfinished results)
  obtain ⟨acc, summed, hresult, hperm, hacc⟩ := hdivides.sums ha hdrawn
    (fun _ hb => hload.countable_rows hb) hload.countable_all hsome hfinished
  exact ⟨rows, drawn, acc, summed, hrows, hdrawn, hresult, hflat ▸ hperm, hacc⟩

end Coordinator

end SeededRows
