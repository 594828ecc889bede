/-
  SeededRows.Proofs.Coordinator.CallCounts

  How often the hooks of an aggregator are called in a run. The coordinator's own copies only ever
  reduce, and only in the end; workers set their copies up once, map every row of their batches once
  and fold what the rows of a batch came to, which leaves one accumulator for each batch to be reduced
  by the coordinator. So in a run that ends well no number depends on how the rows were divided into
  batches or the batches among workers, but for who made which reductions.
-/
import SeededRows.Proofs.Coordinator.Division

namespace SeededRows

variable {σ : Type}

/-! ## Reductions on copies -/

/-- What became of a copy on which nothing but reductions was called. -/
structure Copy.OnlyReduced (c c' : Copy σ) : Prop where
  aggregator : c'.aggregator = c.aggregator
  calls : ∃ more, c'.calls = more ++ c.calls ∧ ∀ call ∈ more, call.stage = .reduce

namespace Copy

variable {c c' : Copy σ}

theorem OnlyReduced.refl (c : Copy σ) : c.OnlyReduced c := ⟨rfl, [], rfl, by simp⟩

theorem onlyReduced_reduce (c : Copy σ) (values : List Accumulator) :
    c.OnlyReduced (c.reduce values).2 := by
  obtain ⟨more, hcalls, hstages, -⟩ := c.aggregator.reduceAny_notes values c.toTracked
  exact ⟨rfl, more, hcalls, hstages⟩

theorem OnlyReduced.count (h : c.OnlyReduced c') {stage : Stage} (hstage : stage ≠ .reduce) :
    c'.count stage = c.count stage := by
  obtain ⟨more, hcalls, hmore⟩ := h.calls
  rw [Copy.count, hcalls, List.countP_append, List.countP_eq_zero.mpr, Nat.zero_add]
  · rfl
  · intro call hcall heq
    rw [hmore call hcall, beq_iff_eq] at heq
    exact hstage heq.symm

/-- A reduction that comes to a value makes one call less than there are values. -/
theorem count_of_reduce {values : List Accumulator} {acc : Accumulator}
    (h : c.reduce values = (.ok acc, c')) :
    c'.count .reduce = c.count .reduce + (values.length - 1) := by
  rw [Copy.count, (calls_of_reduce h).2, List.countP_append, Call.count_returned, if_pos rfl,
    Nat.add_comm]
  rfl

end Copy

namespace Copies

theorem onlyReduced_reduce (copies : List (Copy σ)) (tally : Tally) :
    List.Forall₂ Copy.OnlyReduced copies (reduce copies tally).2 := by
  have hrefl (copies : List (Copy σ)) : List.Forall₂ Copy.OnlyReduced copies copies :=
    List.forall₂_same.mpr fun c _ => .refl c
  induction copies generalizing tally with
  | nil => exact hrefl []
  | cons c rest ih =>
    cases tally with
    | nil => exact hrefl (c :: rest)
    | cons column tally =>
      have hc := c.onlyReduced_reduce column.reverse
      rw [reduce]
      rcases hreduce : c.reduce column.reverse with ⟨s | v, c'⟩
      · rw [hreduce] at hc
        exact .cons hc (hrefl rest)
      · rw [hreduce] at hc
        exact .cons hc (ih tally)

end Copies

/-! ## Calls on the copies of workers -/

/-- How often a hook was called on some copies. -/
def Copies.calls (copies : List (Copy σ)) (stage : Stage) : Nat :=
  (copies.map (·.count stage)).sum

theorem Copies.calls_cons (c : Copy σ) (copies : List (Copy σ)) (stage : Stage) :
    calls (c :: copies) stage = c.count stage + calls copies stage := by
  rw [calls, calls, List.map_cons, List.sum_cons]

namespace Coordinator

variable {c : Coordinator σ} {entropy : Entropy} {settle : Pool.Settling σ} {place : Nat}
  {share : List WorkedBatch} {shares : List (List WorkedBatch)} {copy : Copy σ} {copies : List (Copy σ)}
  {all : List Batch} {tally : Tally} {run : Run σ}

theorem Fed.counts (h : c.Fed entropy settle place share copy) :
    copy.count .start = 1 ∧ copy.count .done = 1 ∧
      copy.count .map = (share.map fun made => made.batch.size).sum ∧
      copy.count .reduce + share.length = (share.map fun made => made.batch.size).sum := by
  obtain ⟨worker, given, fields, -, -, -, hretired⟩ := h
  have hcounts := hretired.counts
  rwa [Engine.length_flatten_groupsOf, Engine.groupsOf, List.length_map] at hcounts

/-- All copies of one aggregator together. -/
theorem calls_of_fed (h : List.Forall₂ (c.Fed entropy settle place) shares copies) :
    Copies.calls copies .start = shares.length ∧ Copies.calls copies .done = shares.length ∧
      Copies.calls copies .map = (shares.flatten.map fun made => made.batch.size).sum ∧
      Copies.calls copies .reduce + shares.flatten.length =
        (shares.flatten.map fun made => made.batch.size).sum := by
  induction h with
  | nil => exact ⟨rfl, rfl, rfl, rfl⟩
  | cons hfirst _ ih =>
    obtain ⟨hstart, hdone, hmap, hreduce⟩ := hfirst.counts
    obtain ⟨hstarts, hdones, hmaps, hreduces⟩ := ih
    simp only [Copies.calls_cons, List.length_cons, List.flatten_cons, List.map_append,
      List.sum_append, List.length_append]
    omega

/-! ## Runs -/

/-- The hooks of the aggregator in a place were called as often as its rows, batches and workers take:
by all workers together, and on the coordinator's own copy, which may have been used before. -/
structure Counted (c : Coordinator σ) (batches : Nat) (place : Nat) (run : Run σ) : Prop where
  copies : (run.copiesAt place).length = c.settings.workers
  starts : Copies.calls (run.copiesAt place) .start = c.settings.workers
  dones : Copies.calls (run.copiesAt place) .done = c.settings.workers
  maps : Copies.calls (run.copiesAt place) .map = c.settings.rows
  reduces : Copies.calls (run.copiesAt place) .reduce + (batches - 1) = c.settings.rows - 1
  own : ∃ configured own, c.configured[place]? = some configured ∧
    run.coordinator.configured[place]? = some own ∧
    own.count .reduce = configured.count .reduce + (batches - 1) ∧
    ∀ stage, stage ≠ .reduce → own.count stage = configured.count stage

/-- A run that ended well. -/
theorem Divides.all_counted (h : c.Divides entropy settle all shares tally run)
    (hsum : (all.map Batch.size).sum = c.settings.rows) (hsome : all ≠ []) {results : Results}
    (hfinished : run.ending = .finished results) (hplace : place < c.configured.length) :
    c.Counted all.length place run := by
  have hfed := h.fed hplace
  obtain ⟨hstarts, hdones, hmaps, hreduces⟩ := calls_of_fed hfed
  have hlength : shares.flatten.length = all.length := by
    rw [← h.divided.length_eq, List.length_map]
  have hrows : (shares.flatten.map fun made => made.batch.size).sum = c.settings.rows := by
    rw [← hsum, ← (h.divided.map Batch.size).sum_nat, List.map_map]
    rfl
  have hpos : 0 < all.length := List.length_pos_iff.mpr hsome
  rw [h.staffed] at hstarts hdones
  rw [hrows] at hmaps hreduces
  rw [hlength] at hreduces
  refine ⟨?_, hstarts, hdones, hmaps, by omega, ?_⟩
  · rw [← hfed.length_eq, h.staffed]
  · -- the column of the tally was reduced on the coordinator's own copy
    obtain ⟨column, acc, own, hmade, hown, -, hreduce⟩ := h.reduced hfinished hplace
    have hcolumnLength : column.length = all.length := by
      have heq := hmade.length_eq
      rwa [List.length_map, List.length_map, List.length_map, hlength] at heq
    have hcount := Copy.count_of_reduce hreduce
    rw [List.length_reverse, hcolumnLength] at hcount
    have honly := c.configured[place].onlyReduced_reduce column.reverse
    rw [hreduce] at honly
    exact ⟨_, own, List.getElem?_eq_getElem hplace, hown, hcount, fun stage hstage =>
      honly.count hstage⟩

/-- Nothing but reductions is called on the coordinator's own copies, in any start. -/
theorem onlyReduced_of_started {ids : Random.Source} (h : c.Started ids entropy settle run) :
    List.Forall₂ Copy.OnlyReduced c.configured run.coordinator.configured := by
  have hsame : List.Forall₂ Copy.OnlyReduced c.configured c.configured :=
    List.forall₂_same.mpr fun c _ => .refl c
  cases h with
  | again | unlaid | crowded => exact hsame
  | @inline rows =>
    rcases hrun : Inline.run c.order c.configured entropy (.ofSize rows c.settings.batchSize.toNat)
      (.ofTotal c.settings.rows c.settings.verbose) with ⟨tally | _ | info, copies, progress⟩
    · obtain ⟨-, hown, -⟩ := runInline_of_finished hrun
      rw [hown]
      exact Copies.onlyReduced_reduce c.configured tally
    · rw [runInline, hrun]
      exact hsame
    · rw [runInline, hrun]
      exact hsame
  | @pooled _ _ p =>
    rw [configured_ofPool]
    split
    · exact Copies.onlyReduced_reduce c.configured p.tally
    · exact hsame

/-- On the coordinator's own copies nothing but reductions is called, in every start. An accepted
coordinator reduces once all its batches were worked through, each by one of the workers, and what it
reduces is what they made of them; until then its copies are as they were configured. When such a run
ends well, every worker has set a copy of each aggregator up and torn it down once, all rows were
mapped once, and all but one of the accumulators of rows were folded into another, one less than
there are batches by the coordinator. -/
theorem calls_counted (c : Coordinator σ) (ids : Random.Source) (entropy : Entropy)
    (settle : Pool.Settling σ) (schedule : Nat → Pool.Move) (moves : Nat) {run : Run σ}
    (hrun : c.startAmid ids entropy settle schedule moves = run) :
    List.Forall₂ Copy.OnlyReduced c.configured run.coordinator.configured ∧
    (c.phase ≠ .filling → run.coordinator = c) ∧
    ∀ {settings order configured}, ofSettings settings order configured = .ok c →
      ∃ rows all, settings.rowStream ids = .ok rows ∧ rows.toList.length = settings.rows ∧
        (Batches.ofSize rows settings.batchSize.toNat).Gives all ∧
        all.flatMap Batch.rows = rows.toList ∧
        (c.Breaks run ∨ ∃ shares tally, c.Divides entropy settle all shares tally run) ∧
        ∀ results, run.ending = .finished results → ∀ place < configured.length,
          c.Counted all.length place run := by
  have hstarted := c.startAmid_started ids entropy settle schedule moves
  rw [hrun] at hstarted
  refine ⟨onlyReduced_of_started hstarted, ?_, ?_⟩
  · intro late
    rw [hstarted.of_late late]
    rfl
  · intro settings order configured hc
    obtain ⟨rows, all, hrows, hlength, hload, hflat, hsum, hsome⟩ := workload_of_accepted hc ids
    obtain ⟨-, -, rfl⟩ := ofSettings_eq_ok hc
    have hdivides : Breaks _ run ∨ ∃ shares tally, Divides _ entropy settle all shares tally run :=
      hrun ▸ startAmid_divides hc hrows hload hflat schedule moves
    refine ⟨rows, all, hrows, hlength, hload.gives, hflat, hdivides, ?_⟩
    intro results hfinished place hplace
    rcases hdivides with hbreaks | ⟨shares, tally, hdivides⟩
    · exact absurd hfinished (hbreaks.unfinished results)
    · exact hdivides.all_counted hsum hsome hfinished hplace

/-- The settings of two workers and three rows in batches of two. -/
def trioSettings : Settings := ⟨some 1, 2, 3, 2, 5, false⟩

/-- A coordinator of two workers that count three rows. -/
def trio : Coordinator Unit := ⟨trioSettings, .empty, counting, .filling⟩

/-- Two workers count three rows: they map each of them and make one reduction, in the batch of two,
and the coordinator makes another one, of the two batches. -/
theorem calls_counted_trio : ∃ run, trio.startAmid (.ofSeed 0) (fun _ => .ofSeed 0) .alike
      (Pool.rounds 2) 48 = run ∧
    Copies.calls (run.copiesAt 0) .start = 2 ∧ Copies.calls (run.copiesAt 0) .done = 2 ∧
    Copies.calls (run.copiesAt 0) .map = 3 ∧ Copies.calls (run.copiesAt 0) .reduce = 1 ∧
    ∃ own, run.coordinator.configured[0]? = some own ∧ own.count .reduce = 1 := by
  have hc : ofSettings trioSettings .empty counting = .ok trio := rfl
  have hends : (match (trio.startAmid (.ofSeed 0) (fun _ => .ofSeed 0) .alike (Pool.rounds 2)
      48).ending with | .finished _ => true | _ => false) = true := by decide +kernel
  obtain ⟨run, hrun⟩ : ∃ run, trio.startAmid (.ofSeed 0) (fun _ => .ofSeed 0) .alike
    (Pool.rounds 2) 48 = run := ⟨_, rfl⟩
  obtain ⟨-, -, haccepted⟩ := calls_counted trio (.ofSeed 0) (fun _ => .ofSeed 0) .alike
    (Pool.rounds 2) 48 hrun
  obtain ⟨rows, all, hrows, -, hgives, -, -, hcounted⟩ := haccepted hc
  rw [hrun] at hends
  obtain ⟨results, hfinished⟩ : ∃ results, run.ending = .finished results := by
    cases he : run.ending with
    | finished results => exact ⟨results, rfl⟩
    | _ =>
      rw [he] at hends
      cases hends
  -- there are two batches
  have hlength : all.length = 2 := by
    have htwo : (match trioSettings.rowStream (.ofSeed 0) with
        | .ok rows => ((Batches.ofSize rows 2).take 3).1.length
        | .error _ => 0) = 2 := by decide +kernel
    rw [hrows] at htwo
    have htake : ((Batches.ofSize rows 2).take 3).1 = all.take 3 := (hgives.take 3).1
    dsimp only at htwo
    rw [htake, List.length_take] at htwo
    omega
  have hcount := hcounted results hfinished 0 (by decide)
  rw [hlength] at hcount
  obtain ⟨configured, own, hconfigured, hown, hreduces, -⟩ := hcount.own
  obtain rfl : .fresh (.count Unit) () = configured := Option.some.inj hconfigured
  exact ⟨run, hrun, hcount.starts, hcount.dones, hcount.maps, Nat.succ.inj hcount.reduces, own,
    hown, hreduces⟩

end Coordinator

end SeededRows
