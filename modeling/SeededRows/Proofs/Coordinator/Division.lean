/-
  SeededRows.Proofs.Coordinator.Division

  How a run divides its batches. A run either breaks off before its final reduction, and then the
  coordinator's own copies of the aggregators are as they were; or every batch was worked through by
  one of the workers, every worker tore its copies down after its share, and the accumulators of all
  batches were reduced on the coordinator's own copies. There is one worker if the run is on the
  calling thread, and its share is everything.
-/
import SeededRows.Proofs.Coordinator.Reductions
import SeededRows.Proofs.Coordinator.Starts
import SeededRows.Proofs.Pool.Shares

namespace SeededRows

variable {σ : Type} {entropy : Entropy}

/-! ## What a tally holds -/

/-- For each aggregator the tally holds what was made of some batches, in whatever order. -/
structure Tally.Holds (tally : Tally) (aggregators : Nat) (made : List (List Accumulator)) : Prop where
  length : tally.length = aggregators
  columns : ∀ {i : Nat}, i < aggregators →
    ∃ column, tally[i]? = some column ∧ (column.map some).Perm (made.map (·[i]?))

namespace Tally

variable {tally : Tally} {n : Nat} {made : List (List Accumulator)}

theorem holds_empty (n : Nat) : (empty n).Holds n [] := by
  refine ⟨List.length_replicate, ?_⟩
  intro i hi
  exact ⟨[], by simp [empty, hi], .nil⟩

theorem Holds.perm {others : List (List Accumulator)} (h : tally.Holds n made)
    (hperm : made.Perm others) : tally.Holds n others := by
  refine ⟨h.length, ?_⟩
  intro i hi
  obtain ⟨column, hcolumn, hmade⟩ := h.columns hi
  exact ⟨column, hcolumn, hmade.trans (hperm.map _)⟩

/-- Recording what was made of a batch. -/
theorem Holds.record {tally' : Tally} {results : List Accumulator} (h : tally.Holds n made)
    (hr : tally.record results = .ok tally') : tally'.Holds n (results :: made) := by
  rw [Tally.record] at hr
  split at hr
  · rename_i hlength
    cases hr
    refine ⟨?_, ?_⟩
    · rw [List.length_zipWith, hlength, h.length, Nat.min_self]
    · intro i hi
      obtain ⟨column, hcolumn, hmade⟩ := h.columns hi
      have hlt : i < results.length := by rwa [hlength, h.length]
      refine ⟨results[i] :: column, ?_, ?_⟩
      · rw [List.getElem?_zipWith, hcolumn, List.getElem?_eq_getElem hlt]
      · rw [List.map_cons, List.map_cons, List.getElem?_eq_getElem hlt]
        exact hmade.cons _
  · cases hr

/-- The tally of a pool holds what was recorded. -/
theorem holds_tallyOf {recs : List Pool.Recording} (h : ∀ r ∈ recs, r.results.length = n) :
    (Pool.tallyOf n recs).Holds n (recs.map Pool.Recording.results) := by
  refine ⟨Pool.length_tallyOf h, ?_⟩
  intro i hi
  obtain ⟨column, hcolumn, hmap⟩ := Pool.tallyOf_getElem? h hi
  refine ⟨column, hcolumn, ?_⟩
  rw [hmap, List.map_map]
  exact .refl _

end Tally

/-! ## The final reduction -/

/-- When all columns of a tally can be reduced, each of them was on the copy in its place, and what
came of it is the result in that place. -/
theorem Copies.reduce_eq_ok {copies copies' : List (Copy σ)} {tally : Tally} {results : Results}
    (h : reduce copies tally = (.ok results, copies')) {place : Nat} {c : Copy σ}
    {column : List Accumulator} (hc : copies[place]? = some c) (hcolumn : tally[place]? = some column) :
    ∃ acc c', copies'[place]? = some c' ∧ results[place]? = some (c'.aggregator.name, acc) ∧
      c.reduce column.reverse = (.ok acc, c') := by
  induction copies generalizing tally copies' results place with
  | nil => cases hc
  | cons first rest ih =>
    cases tally with
    | nil => cases hcolumn
    | cons firstColumn tally =>
      rw [reduce] at h
      rcases hfirst : first.reduce firstColumn.reverse with ⟨s | v, first'⟩
      · rw [hfirst] at h
        cases h
      · rcases hrest : reduce rest tally with ⟨s | more, rest'⟩
        · simp [hfirst, hrest, Except.map] at h
        · rw [hfirst, hrest] at h
          cases h
          cases place with
          | zero =>
            cases hc
            cases hcolumn
            exact ⟨v, first', rfl, rfl, hfirst⟩
          | succ place => exact ih hrest hc hcolumn

/-! ## The loop over batches -/

/-- A loop over batches that finished has worked through all of them, in their order, and has
counted their rows. -/
theorem Inline.drive_session {bs : List Batch} {batches : Batches RowIds.Stream}
    (hgives : batches.Gives bs) {n k : Nat} (hn : bs.length ≤ n) {order : FieldOrder}
    {given : List (Copy σ)} {share : List WorkedBatch} {engine engine' : Engine σ}
    (hsession : engine.Session order given entropy share) {tally tally' : Tally}
    (htally : tally.Holds k (share.map WorkedBatch.results)) {progress progress' : Progress}
    (hroom : progress.rows + (bs.map Batch.size).sum ≤ Progress.limit)
    (hdrive : drive entropy n batches engine tally progress = (.finished tally', engine', progress')) :
    ∃ more, engine'.Session order given entropy (more ++ share) ∧
      more.map WorkedBatch.batch = bs.reverse ∧ tally'.Holds k ((more ++ share).map WorkedBatch.results) ∧
      progress'.rows = progress.rows + (bs.map Batch.size).sum := by
  induction hgives generalizing n share engine tally progress with
  | ends hnone =>
    -- no batch is left
    cases n with
    | zero =>
      cases hdrive
      exact ⟨[], hsession, rfl, htally, rfl⟩
    | succ n =>
      rw [drive, hnone] at hdrive
      cases hdrive
      exact ⟨[], hsession, rfl, htally, rfl⟩
  | @batch batches rest b bs hnext _ ih =>
    rw [List.length_cons] at hn
    rw [List.map_cons, List.sum_cons] at hroom
    obtain ⟨n, rfl⟩ : ∃ k, n = k + 1 := ⟨n - 1, by omega⟩
    rw [drive, hnext] at hdrive
    dsimp only at hdrive
    split at hdrive
    · rename_i halt engine₁ hp
      cases halt <;> cases hdrive
    · rename_i results engine₁ hp
      split at hdrive
      · cases hdrive
      · rename_i tally₁ hrecord
        have hadded : (progress.add b.size).rows = progress.rows + b.size := by
          rw [Progress.add]
          exact Nat.min_eq_left (by omega)
        obtain ⟨more, hsession', hbatches, htally', hrows⟩ :=
          ih (Nat.le_of_succ_le_succ hn) (hsession.worked (b := b) hp) (htally.record hrecord)
            (by rw [hadded]; omega) hdrive
        have happend : more ++ [⟨b, results⟩] ++ share = more ++ ⟨b, results⟩ :: share := by
          rw [List.append_assoc]
          rfl
        refine ⟨more ++ [⟨b, results⟩], ?_, ?_, ?_, ?_⟩
        · rw [happend]
          exact hsession'
        · rw [List.map_append, hbatches, List.reverse_cons]
          rfl
        · rw [happend]
          exact htally'
        · rw [hrows, hadded, List.map_cons, List.sum_cons, Nat.add_assoc]

/-- What it takes for the work on the calling thread to be finished. -/
theorem Inline.of_run_finished {order : FieldOrder} {configured copies : List (Copy σ)}
    {batches : Batches RowIds.Stream} {tally : Tally} {progress progress' : Progress}
    (h : run order configured entropy batches progress = (.finished tally, copies, progress')) :
    ∃ (engine engine' engine'' : Engine σ) (fresh : List (Copy σ)),
      Engine.start order configured = (.ok engine, fresh) ∧
      drive entropy (batches.rows.remaining + 1) batches engine (.empty configured.length) progress =
        (.finished tally, engine', progress') ∧
      engine'.done = (.ok (), engine'') ∧ engine''.copies = copies := by
  rw [run] at h
  rcases hstart : Engine.start order configured with ⟨s | engine, fresh⟩
  · rw [hstart] at h
    cases h
  · rw [hstart] at h
    dsimp only at h
    rcases hdrive : drive entropy (batches.rows.remaining + 1) batches engine
      (.empty configured.length) progress with ⟨tally' | _ | info, engine', progress''⟩
    · rw [hdrive] at h
      dsimp only at h
      rcases hdone : engine'.done with ⟨s | ⟨⟩, engine''⟩
      · rw [hdone] at h
        cases h
      · rw [hdone] at h
        cases h
        exact ⟨engine, engine', engine'', fresh, rfl, hdrive, hdone, rfl⟩
    · rw [hdrive] at h
      cases h
    · rw [hdrive] at h
      cases h

/-- The workers' copies of the aggregator in a place. -/
def Run.copiesAt (run : Run σ) (place : Nat) : List (Copy σ) := run.workerCopies.filterMap (·[place]?)

namespace Coordinator

/-! ## Division -/

/-- The copies that a worker makes its own from: on the calling thread those of the coordinator, on a
pool those that the worker is given. -/
def givenTo (c : Coordinator σ) (entropy : Entropy) (settle : Pool.Settling σ) (worker : Nat) :
    List (Copy σ) :=
  if c.settings.workers = 1 then c.configured else (c.setup entropy settle).given worker

/-- Workers that all find the same outside are given copies of the coordinator's own aggregators. -/
theorem givenTo_alike (c : Coordinator σ) (entropy : Entropy) (worker : Nat) :
    (c.givenTo entropy .alike worker).map (·.aggregator) = c.configured.map (·.aggregator) := by
  rw [givenTo]
  split
  · rfl
  · rw [Pool.Setup.given_alike rfl, List.map_map]
    rfl

/-- A run in which all batches were worked through: each worker had a share of them and was torn
down after it, and what was made of the batches was reduced in the end. -/
structure Divides (c : Coordinator σ) (entropy : Entropy) (settle : Pool.Settling σ)
    (all : List Batch) (shares : List (List WorkedBatch)) (tally : Tally) (run : Run σ) : Prop where
  divided : (shares.flatten.map WorkedBatch.batch).Perm all
  tallied : tally.Holds c.configured.length (shares.flatten.map WorkedBatch.results)
  staffed : shares.length = c.settings.workers
  copied : run.workerCopies.length = shares.length
  worked : ∀ {worker : Nat} {share : List WorkedBatch}, shares[worker]? = some share →
    ∃ engine engine' : Engine σ, run.workerCopies[worker]? = some engine'.copies ∧
      engine.Session c.order (c.givenTo entropy settle worker) entropy share ∧
      engine.done = (.ok (), engine')
  counted : run.progress.rows = (all.map Batch.size).sum
  ending : run.ending = reduced (Copies.reduce c.configured tally).1
  own : run.coordinator.configured = (Copies.reduce c.configured tally).2

/-- A run that broke off before its final reduction, or has not come to it. -/
structure Breaks (c : Coordinator σ) (run : Run σ) : Prop where
  own : run.coordinator.configured = c.configured
  unfinished : ∀ results, run.ending ≠ .finished results
  faultless : ∀ f, run.ending ≠ .failed (.fault f)

variable {c : Coordinator σ} {rows : RowIds.Stream} {settle : Pool.Settling σ} {all : List Batch}

/-- What a run on the calling thread leaves when its work was finished. -/
theorem runInline_of_finished {tally : Tally} {copies : List (Copy σ)} {progress : Progress}
    (hrun : Inline.run c.order c.configured entropy (.ofSize rows c.settings.batchSize.toNat)
      (.ofTotal c.settings.rows c.settings.verbose) = (.finished tally, copies, progress)) :
    (c.runInline entropy rows).ending = reduced (Copies.reduce c.configured tally).1 ∧
      (c.runInline entropy rows).coordinator.configured = (Copies.reduce c.configured tally).2 ∧
      (c.runInline entropy rows).workerCopies = [copies] ∧
      (c.runInline entropy rows).progress = progress := by
  rw [runInline, hrun]
  dsimp only
  rcases Copies.reduce c.configured tally with ⟨(f | crash) | results, own⟩
  · exact ⟨rfl, rfl, rfl, rfl⟩
  · exact ⟨rfl, rfl, rfl, rfl⟩
  · exact ⟨rfl, rfl, rfl, rfl⟩

/-- A run that failed because of work that it did. -/
theorem Breaks.of_failed {run : Run σ} {error : RunError}
    (own : run.coordinator.configured = c.configured) (hending : run.ending = .failed error)
    (herror : ∀ f, error ≠ .fault f) : c.Breaks run := by
  refine ⟨own, by simp [hending], ?_⟩
  intro f hf
  exact herror f (Ending.failed.inj (hending.symm.trans hf))

/-- A run on the calling thread whose work was finished. -/
theorem runInline_divides_of_finished {tally : Tally} {copies : List (Copy σ)} {progress : Progress}
    (hone : c.settings.workers = 1)
    (hload : Pool.Workload (.ofSize rows c.settings.batchSize.toNat) c.settings.workers
      (.ofTotal c.settings.rows c.settings.verbose) all) (hlength : all.length ≤ rows.remaining)
    (hrun : Inline.run c.order c.configured entropy (.ofSize rows c.settings.batchSize.toNat)
      (.ofTotal c.settings.rows c.settings.verbose) = (.finished tally, copies, progress)) :
    ∃ shares, c.Divides entropy settle all shares tally (c.runInline entropy rows) := by
  obtain ⟨engine, engine', engine'', fresh, hstart, hdrive, hdone, rfl⟩ :=
    Inline.of_run_finished hrun
  have hcount := hload.countable
  obtain ⟨share, hsession, hbatches, htally, hrows⟩ := Inline.drive_session hload.gives
    (Nat.le_succ_of_le hlength) (.made hstart) (Tally.holds_empty c.configured.length)
    (by rwa [hload.fresh, Nat.zero_add]) hdrive
  rw [hload.fresh, Nat.zero_add] at hrows
  rw [List.append_nil] at hsession htally
  have hgiven : c.givenTo entropy settle 0 = c.configured := if_pos hone
  have hflatten : [share].flatten = share := List.flatten_singleton
  obtain ⟨hending, hown, hworkers, hprogress⟩ := runInline_of_finished hrun
  refine ⟨[share], ?_, hflatten.symm ▸ htally, hone.symm, ?_, ?_, ?_, hending, hown⟩
  · rw [hflatten, hbatches]
    exact all.reverse_perm
  · rw [hworkers]
    rfl
  · intro worker share' hshare
    obtain ⟨rfl, rfl⟩ : worker = 0 ∧ share' = share := by
      cases worker with
      | zero => exact ⟨rfl, (Option.some.inj hshare).symm⟩
      | succ worker => cases hshare
    refine ⟨engine', engine'', ?_, hgiven.symm ▸ hsession, hdone⟩
    rw [hworkers]
    rfl
  · rw [hprogress, hrows]

/-- A run on the calling thread. -/
theorem runInline_divides (hone : c.settings.workers = 1)
    (hload : Pool.Workload (.ofSize rows c.settings.batchSize.toNat) c.settings.workers
      (.ofTotal c.settings.rows c.settings.verbose) all) (hlength : all.length ≤ rows.remaining) :
    c.Breaks (c.runInline entropy rows) ∨
      ∃ shares tally, c.Divides entropy settle all shares tally (c.runInline entropy rows) := by
  rcases hrun : Inline.run c.order c.configured entropy (.ofSize rows c.settings.batchSize.toNat)
    (.ofTotal c.settings.rows c.settings.verbose) with ⟨tally | _ | info, copies, progress⟩
  · obtain ⟨shares, hdivides⟩ := runInline_divides_of_finished hone hload hlength hrun
    exact .inr ⟨shares, tally, hdivides⟩
  · left
    have heq : (c.runInline entropy rows).ending = .failed .cancelled := by rw [runInline, hrun]
    have hown : (c.runInline entropy rows).coordinator.configured = c.configured := by
      rw [runInline, hrun]
    exact .of_failed hown heq (by simp)
  · left
    have hown : (c.runInline entropy rows).coordinator.configured = c.configured := by
      rw [runInline, hrun]
    exact .of_failed hown (ending_of_failed hrun) (by simp)

/-- A run on a pool whose coordinator has returned without an error. -/
theorem ofPool_divides {h : Pool.History σ} {p : Pool σ} (hmany : c.settings.workers ≠ 1)
    (hload : Pool.Workload (.ofSize rows c.settings.batchSize.toNat) c.settings.workers
      (.ofTotal c.settings.rows c.settings.verbose) all)
    (hp : Pool.Reaches (c.setup entropy settle) (c.pool entropy settle rows) h p)
    (hc : p.control = .returned (.ok ())) :
    ∃ shares, c.Divides entropy settle all shares p.tally (c.ofPool p) := by
  obtain ⟨shares, hstaffed, hbatches, hnamed, hworked⟩ := hp.shared_out hload hc
  have hresults : ((Pool.recordings h).map Pool.Recording.results).Perm
      (shares.flatten.map WorkedBatch.results) := by
    have hsnd := hnamed.symm.map Prod.snd
    rwa [List.map_map, List.map_map] at hsnd
  have htallied : p.tally.Holds c.configured.length (shares.flatten.map WorkedBatch.results) := by
    rw [hp.tallied.tally]
    exact (Tally.holds_tallyOf hp.tallied.counted).perm hresults
  have houtcome : p.outcome? = some (.ok ()) := by rw [Pool.outcome?, hc]
  have hending := ending_ofPool c p
  have hown := configured_ofPool c p
  rw [houtcome] at hending hown
  refine ⟨shares, hbatches, htallied, hstaffed, ?_, ?_, ?_, hending, hown⟩
  · rw [hstaffed]
    exact (List.length_map _).trans hp.length_workers
  · intro worker share hshare
    obtain ⟨w, engine, engine', hw, hcopies, hsession, hdone⟩ := hworked hshare
    have hgiven : c.givenTo entropy settle worker = (c.setup entropy settle).given worker :=
      if_neg hmany
    refine ⟨engine, engine', ?_, hgiven.symm ▸ hsession, hdone⟩
    rw [← hcopies]
    exact (List.getElem?_map ..).trans (congrArg _ hw)
  · -- nothing is outstanding, so all rows were counted
    have hgoing := (hp.recorded_all hload hc).1
    have hout := hp.steered.emptied hgoing (.inr hc)
    obtain ⟨unpulled, hkept⟩ := hp.kept hload hgoing
    obtain ⟨rfl, -⟩ := hkept.finished hout
    have hrows := hkept.account.rows
    rw [hout] at hrows
    show p.progress.rows = _
    simpa using hrows

/-- A run on a pool whose coordinator has not returned, or has returned with an error. -/
theorem ofPool_breaks {h : Pool.History σ} {p : Pool σ}
    (hload : Pool.Workload (.ofSize rows c.settings.batchSize.toNat) c.settings.workers
      (.ofTotal c.settings.rows c.settings.verbose) all)
    (hp : Pool.Reaches (c.setup entropy settle) (c.pool entropy settle rows) h p)
    (hc : p.control ≠ .returned (.ok ())) : c.Breaks (c.ofPool p) := by
  have hending := ending_ofPool c p
  have hown := configured_ofPool c p
  cases ho : p.outcome? with
  | none =>
    rw [ho] at hending hown
    exact ⟨hown, by simp [hending], by simp [hending]⟩
  | some outcome =>
    have hcontrol := Pool.control_of_outcome ho
    rw [ho] at hending hown
    rcases outcome with error | ⟨⟩
    · -- no run on a pool is given up for a fault
      have hverdict : p.verdict? = some error := by rw [Pool.verdict?, hcontrol]
      have hjust := hp.justified hload hverdict
      refine .of_failed hown hending ?_
      rintro f rfl
      exact hjust
    · exact absurd hcontrol hc

/-! ## The copies of one aggregator -/

/-- Every worker is given a copy of each aggregator. -/
theorem length_givenTo (c : Coordinator σ) (entropy : Entropy) (settle : Pool.Settling σ)
    (worker : Nat) : (c.givenTo entropy settle worker).length = c.configured.length := by
  rw [givenTo]
  split
  · rfl
  · rw [Pool.Setup.given, List.length_mapIdx, List.length_map]
    rfl

/-- The copy of the aggregator in a place was set up by a worker, fed the rows of the worker's share
and torn down, and all these rows could be drawn. -/
def Fed (c : Coordinator σ) (entropy : Entropy) (settle : Pool.Settling σ) (place : Nat)
    (share : List WorkedBatch) (copy : Copy σ) : Prop :=
  ∃ worker given fields, (c.givenTo entropy settle worker)[place]? = some given ∧
    selectFields c.order (c.givenTo entropy settle worker) = .ok fields ∧
    (∀ made ∈ share, ∀ spec ∈ made.batch.rows,
      drawRow c.order fields entropy spec = .ok (rowOf c.order fields entropy spec)) ∧
    given.Retired (Engine.groupsOf c.order fields entropy share) copy

/-- Each worker has one copy of each aggregator, which was fed its share. -/
theorem Divides.fed {run : Run σ} {shares : List (List WorkedBatch)} {tally : Tally}
    (h : c.Divides entropy settle all shares tally run) {place : Nat}
    (hplace : place < c.configured.length) :
    List.Forall₂ (c.Fed entropy settle place) shares (run.copiesAt place) := by
  refine forall₂_filterMap (List.forall₂_iff_get.mpr ⟨h.copied.symm, ?_⟩)
  intro worker hshare hcopies
  obtain ⟨engine, engine', hworker, hsession, hdone⟩ := h.worked (List.getElem?_eq_getElem hshare)
  have hcopied : run.workerCopies.get ⟨worker, hcopies⟩ = engine'.copies := by
    rw [List.getElem?_eq_getElem hcopies] at hworker
    exact Option.some.inj hworker
  obtain ⟨fields, hfields, hdrawn, hretired⟩ := hsession.retired hdone
  have hlength : place < engine'.copies.length := by
    rwa [← hretired.length_eq, length_givenTo]
  have hcopy : engine'.copies[place]? = some engine'.copies[place] := List.getElem?_eq_getElem hlength
  obtain ⟨given, hgiven, hcopyRetired⟩ := forall₂_getElem? hretired hcopy
  rw [hcopied]
  exact ⟨_, hcopy, worker, given, fields, hgiven, hfields, hdrawn, hcopyRetired⟩

/-- In a run that ended well, what was made of the batches was reduced on the coordinator's own copy of
each aggregator, which gave the result in its place. -/
theorem Divides.reduced {run : Run σ} {shares : List (List WorkedBatch)} {tally : Tally}
    (h : c.Divides entropy settle all shares tally run) {results : Results}
    (hfinished : run.ending = .finished results) {place : Nat} (hplace : place < c.configured.length) :
    ∃ (column : List Accumulator) (acc : Accumulator) (own : Copy σ),
      (column.map some).Perm ((shares.flatten.map WorkedBatch.results).map (·[place]?)) ∧
      run.coordinator.configured[place]? = some own ∧
      results[place]? = some (own.aggregator.name, acc) ∧
      c.configured[place].reduce column.reverse = (.ok acc, own) := by
  obtain ⟨column, hcolumn, hmade⟩ := h.tallied.columns hplace
  have hreduced : Copies.reduce c.configured tally = (.ok results, run.coordinator.configured) := by
    refine Prod.ext ?_ h.own.symm
    have hending := h.ending.symm.trans hfinished
    rcases hr : (Copies.reduce c.configured tally).1 with (f | crash) | results'
    · rw [hr] at hending
      cases hending
    · rw [hr] at hending
      cases hending
    · rw [hr] at hending
      cases hending
      rfl
  obtain ⟨acc, own, hown, hresult, hreduce⟩ :=
    Copies.reduce_eq_ok hreduced (List.getElem?_eq_getElem hplace) hcolumn
  exact ⟨column, acc, own, hmade, hown, hresult, hreduce⟩

variable {settings : Settings} {order : FieldOrder} {configured : List (Copy σ)} {ids : Random.Source}

/-! ## Starts -/

/-- The rows of an accepted coordinator can be laid out, and they make at least one batch. -/
theorem workload_of_accepted (hc : ofSettings settings order configured = .ok c)
    (ids : Random.Source) :
    ∃ rows all, settings.rowStream ids = .ok rows ∧ rows.toList.length = settings.rows ∧
      Pool.Workload (.ofSize rows settings.batchSize.toNat) settings.workers
        (.ofTotal settings.rows settings.verbose) all ∧
      all.flatMap Batch.rows = rows.toList ∧ (all.map Batch.size).sum = settings.rows ∧
      all ≠ [] := by
  obtain ⟨hvalid, -, -⟩ := ofSettings_eq_ok hc
  obtain ⟨rows, hrows⟩ := rowStream_of_validate hvalid ids
  obtain ⟨hsound, hremaining⟩ := RowIds.Plan.stream_sound hrows
  obtain ⟨all, hload, hflat, hsum⟩ := workload_of_run hrows (workers_pos hvalid)
  exact ⟨rows, all, hrows, hsound.length_toList.trans hremaining, hload, hflat, hsum,
    batches_ne_nil hvalid hsum⟩

/-- Every start of an accepted coordinator breaks off or divides all batches. -/
theorem startAmid_divides (hc : ofSettings settings order configured = .ok c)
    (hrows : settings.rowStream ids = .ok rows)
    (hload : Pool.Workload (.ofSize rows settings.batchSize.toNat) settings.workers
      (.ofTotal settings.rows settings.verbose) all) (hflat : all.flatMap Batch.rows = rows.toList)
    (schedule : Nat → Pool.Move) (moves : Nat) :
    c.Breaks (c.startAmid ids entropy settle schedule moves) ∨ ∃ shares tally,
      c.Divides entropy settle all shares tally (c.startAmid ids entropy settle schedule moves) := by
  obtain ⟨-, -, rfl⟩ := ofSettings_eq_ok hc
  have hstarted := startAmid_started ⟨settings, order, configured, .filling⟩ ids entropy settle
    schedule moves
  generalize startAmid ⟨settings, order, configured, .filling⟩ ids entropy settle schedule moves =
    run at hstarted
  cases hstarted with
  | again late => exact absurd rfl late
  | unlaid _ laid => cases hrows.symm.trans laid
  | crowded =>
    left
    exact ⟨rfl, by simp [refused], by simp [refused]⟩
  | inline _ laid one =>
    cases hrows.symm.trans laid
    obtain ⟨hsound, -⟩ := RowIds.Plan.stream_sound hrows
    have hlength := length_le_rows hload.nonempty
    rw [hflat, hsound.length_toList] at hlength
    exact runInline_divides one hload hlength
  | @pooled rows' h p _ laid many _ reached =>
    cases hrows.symm.trans laid
    by_cases hreturned : p.control = .returned (.ok ())
    · obtain ⟨shares, hdivides⟩ := ofPool_divides many hload reached hreturned
      exact .inr ⟨shares, p.tally, hdivides⟩
    · exact .inl (ofPool_breaks hload reached hreturned)

end Coordinator

end SeededRows
