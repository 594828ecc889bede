/-
  SeededRows.Proofs.Pool.Delivery

  Every batch of a run is delivered exactly once. As long as the run is not given up there is an
  account of all batches; it holds at the start, moves of workers keep it since they only carry
  batches on, and the coordinator keeps it since it hands out one batch for each that it records.
  What is recorded is what the tally holds, column by column, so when no batch is under way any
  more the tally holds every batch once.
-/
import SeededRows.Aggregator.Count
import SeededRows.Coordinator
import SeededRows.Proofs.Pool.Start

namespace SeededRows

namespace Pool

variable {σ : Type} {setup : Setup σ} {p q : Pool σ}

/-! ## The tally -/

/-- The tally that recordings make for a number of aggregators. -/
def tallyOf (aggregators : Nat) (recs : List Recording) : Tally :=
  recs.foldr (fun r t => List.zipWith (· :: ·) r.results t) (.empty aggregators)

theorem length_tallyOf {n : Nat} {recs : List Recording} (h : ∀ r ∈ recs, r.results.length = n) :
    (tallyOf n recs).length = n := by
  induction recs with
  | nil => exact List.length_replicate
  | cons r recs ih =>
    have htail := ih fun r' hr' => h r' (List.mem_cons_of_mem r hr')
    rw [tallyOf, List.foldr_cons, List.length_zipWith]
    rw [tallyOf] at htail
    rw [htail, h r List.mem_cons_self, Nat.min_self]

/-- The column of an aggregator holds its accumulator of every recording. -/
theorem tallyOf_getElem? {n i : Nat} {recs : List Recording}
    (h : ∀ r ∈ recs, r.results.length = n) (hi : i < n) :
    ∃ column, (tallyOf n recs)[i]? = some column ∧
      column.map some = recs.map fun r => r.results[i]? := by
  induction recs with
  | nil => exact ⟨[], by simp [tallyOf, Tally.empty, hi], rfl⟩
  | cons r recs ih =>
    obtain ⟨column, hcolumn, hmap⟩ := ih fun r' hr' => h r' (List.mem_cons_of_mem r hr')
    have hlen : i < r.results.length := by rwa [h r List.mem_cons_self]
    refine ⟨r.results[i] :: column, ?_, ?_⟩
    · show (List.zipWith (· :: ·) r.results (tallyOf n recs))[i]? = _
      rw [List.getElem?_zipWith, hcolumn, List.getElem?_eq_getElem hlen]
    · rw [List.map_cons, List.map_cons, hmap, List.getElem?_eq_getElem hlen]

/-- The tally of a pool is that of its recordings. -/
structure Tallied (n : Nat) (recs : List Recording) (p : Pool σ) : Prop where
  tally : p.tally = tallyOf n recs
  counted : ∀ r ∈ recs, r.results.length = n

theorem Tallied.coordinator {n : Nat} {recs : List Recording} {r : Option Recording}
    (h : Tallied n recs p) (hm : CoordinatorMove p r q) : Tallied n (r.toList ++ recs) q := by
  have hcounted (r : Recording) (hlen : r.results.length = p.tally.length) :
      ∀ r' ∈ r :: recs, r'.results.length = n := by
    intro r' hr'
    rcases List.mem_cons.mp hr' with rfl | hr'
    · rw [hlen, h.tally, length_tallyOf h.counted]
    · exact h.counted r' hr'
  cases hm with
  | rejects _ _ _ same => exact ⟨same.2.2.1.trans h.tally, h.counted⟩
  | @records r reports rows p' at_control sent running found counted filled =>
    refine ⟨?_, hcounted r counted⟩
    rw [(recorded_refill filled).tally, h.tally]
    rfl
  | @cannotRefill r reports rows violation at_control sent counted =>
    refine ⟨?_, hcounted r counted⟩
    show List.zipWith (· :: ·) r.results p.tally = _
    rw [h.tally]
    rfl
  | @notes worker reports =>
    exact ⟨(noteDying_noted { p with reports } worker).tally.trans h.tally, h.counted⟩
  | _ => exact ⟨h.tally, h.counted⟩

theorem Reaches.tallied {batches : Batches RowIds.Stream} {workers : Nat} {progress : Progress}
    {h : History σ} (hp : Reaches setup (ofBatches setup batches workers progress) h p) :
    Tallied setup.configured.length (recordings h) p := by
  refine hp.invariant (I := fun recs _ p => Tallied setup.configured.length recs p) ?_ ?_ ?_
  · exact ⟨(ofBatches_untouched setup batches workers progress).tally, by simp⟩
  · intro h p q id w s _ hi _ hm
    exact ⟨hm.sameCoordinator.tally.trans hi.tally, hi.counted⟩
  · intro h p q r _ hi hm
    exact hi.coordinator hm

/-! ## The account of a run -/

/-- There is an account of all batches, something is under way while batches are to come, and no
more batches are under way than were handed out at first. -/
structure Kept (all : List Batch) (limit : Nat) (recs : List Recording) (unpulled : List Batch)
    (p : Pool σ) : Prop where
  rest : p.rest.Gives unpulled
  account : Accounted all recs unpulled p
  busy : p.outstanding = [] → unpulled = []
  bounded : p.outstanding.length ≤ limit

variable {all : List Batch} {limit : Nat} {recs : List Recording} {unpulled : List Batch}

/-- An account looks at the places of batches, the outstanding ones and the progress only. -/
theorem Kept.of_same (h : Kept all limit recs unpulled p) (hrest : q.rest = p.rest)
    (hqueued : q.queued = p.queued) (hworkers : q.workers = p.workers)
    (hreported : q.reported = p.reported) (hout : q.outstanding = p.outstanding)
    (hprogress : q.progress = p.progress) : Kept all limit recs unpulled q := by
  have hheld : q.held = p.held := by rw [held, held, hworkers]
  have hunderway : q.underway = p.underway := by rw [underway, underway, hqueued, hheld, hreported]
  refine ⟨hrest ▸ h.rest, ⟨?_, ?_, ?_, ?_⟩, ?_, ?_⟩
  · rw [hunderway]
    exact h.account.places
  · rw [hunderway, hout]
    exact h.account.keys
  · rw [hout, hprogress]
    exact h.account.rows
  · rw [hqueued, hheld]
    exact h.account.known
  · rw [hout]
    exact h.busy
  · rw [hout]
    exact h.bounded

theorem Kept.awaitBatches (h : Kept all limit recs unpulled p) :
    Kept all limit recs unpulled p.awaitBatches := by
  rcases p.awaitBatches_cases with ⟨-, hq⟩ | ⟨-, hq⟩
  · rw [hq]
    exact h.of_same rfl rfl rfl rfl rfl rfl
  · rw [hq]
    exact h.of_same rfl rfl rfl rfl rfl rfl

/-- A recorded batch makes room for the next one. -/
theorem Kept.records {r : Recording} {reports : List Report} {rows : Nat}
    (h : Kept all limit recs unpulled p) (hall : (all.map Batch.id).Nodup)
    (hlimit : (all.map Batch.size).sum ≤ Progress.limit)
    (sent : p.reports = .generated r.id r.worker r.results :: reports)
    (found : p.outstanding.lookup r.id = some rows) {p' : Pool σ}
    (filled : (p.recorded reports r rows).refill = .ok p') : ∃ unpulled,
    Kept all limit (r :: recs) unpulled p'.awaitBatches := by
  have haccount := h.account.recorded hall hlimit sent found
  have hlen := (outstanding_perm (h.account.keys_nodup hall) found).length_eq
  have hbounded := h.bounded
  rw [List.length_cons] at hlen
  rcases refill_cases filled with ⟨hnone, rfl⟩ | ⟨b, rest, hsome, rfl⟩
  -- there is no batch to follow
  · have hnil : unpulled = [] := h.rest.eq_nil hnone
    refine ⟨unpulled, Kept.awaitBatches ⟨h.rest, haccount, fun _ => hnil, ?_⟩⟩
    show (p.outstanding.filter (·.1 ≠ r.id)).length ≤ limit
    omega
  -- the next batch takes the place of the recorded one
  · obtain ⟨more, rfl, hmore⟩ := h.rest.eq_cons hsome
    have haccount' : Accounted all (r :: recs) (b :: more) { p.recorded reports r rows with rest } :=
      ⟨haccount.places, haccount.keys, haccount.rows, haccount.known⟩
    have hout := haccount'.dispatch_outstanding hall
    refine ⟨more, Kept.awaitBatches ⟨hmore, haccount'.dispatch hall, ?_, ?_⟩⟩
    · rw [hout]
      intro hnil
      cases hnil
    · rw [hout]
      show (p.outstanding.filter (·.1 ≠ r.id)).length + 1 ≤ limit
      omega

theorem Kept.coordinator {r : Option Recording} (hsteered : p.Steered)
    (h : Kept all limit recs unpulled p) (hall : (all.map Batch.id).Nodup)
    (hlimit : (all.map Batch.size).sum ≤ Progress.limit) (hm : CoordinatorMove p r q)
    (hgoing : q.cancel = false) : ∃ unpulled, Kept all limit (r.toList ++ recs) unpulled q := by
  cases hm with
  -- a run that is given up is cancelled
  | readsFailure | rejects | cannotRefill | findsClosed | missesReport | cannotSend => cases hgoing
  | aborts at_control =>
    have hcancel : p.cancel = false := hgoing
    rw [hsteered.aborting at_control] at hcancel
    cases hcancel
  | records at_control sent running found counted filled =>
    exact h.records hall hlimit sent found filled
  | @notes worker reports at_control sent =>
    have hreported : reports.filterMap Report.batchId? = p.reported := by
      rw [reported, sent]
      rfl
    have hnoted := noteDying_noted { p with reports } worker
    exact ⟨unpulled, h.of_same hnoted.rest (congrArg (·.filterMap Task.batch?) hnoted.tasks)
      hnoted.workers ((congrArg (·.filterMap Report.batchId?) hnoted.reports).trans hreported)
      hnoted.outstanding hnoted.progress⟩
  -- a word to finish is a task, but not a batch
  | @sendsDone left =>
    have hqueued : (p.tasks ++ [Task.done]).filterMap Task.batch? = p.queued := by
      rw [List.filterMap_append, queued]
      exact List.append_nil _
    exact ⟨unpulled, h.of_same rfl hqueued rfl rfl rfl rfl⟩
  | _ => exact ⟨unpulled, h.of_same rfl rfl rfl rfl rfl rfl⟩

/-- When nothing is outstanding any more, every batch was recorded. -/
theorem Kept.finished (h : Kept all limit recs unpulled p) (hout : p.outstanding = []) :
    unpulled = [] ∧ (recs.map Recording.id).Perm (all.map Batch.id) := by
  have hnil := h.busy hout
  have hkeys := h.account.keys
  have hplaces := h.account.places
  rw [hout] at hkeys
  rw [hnil, List.nil_perm.mp hkeys] at hplaces
  exact ⟨hnil, hplaces⟩

/-- What a pool is to work through: batches with rows, no two with the same name and no two rows with
the same id, that can be counted; and there is a worker for them. -/
structure Workload (batches : Batches RowIds.Stream) (workers : Nat) (progress : Progress)
    (all : List Batch) : Prop where
  gives : batches.Gives all
  nonempty : ∀ b ∈ all, b.rows ≠ []
  names : (all.map Batch.id).Nodup
  ids : ((all.flatMap Batch.rows).map RowSpec.id).Nodup
  countable : (all.map Batch.size).sum ≤ Progress.limit
  staffed : 0 < workers
  fresh : progress.rows = 0

/-- The account at the start, when the first batches were handed out. -/
theorem ofBatches_kept (setup : Setup σ) {batches : Batches RowIds.Stream} {workers : Nat}
    {progress : Progress} (hload : Workload batches workers progress all) : ∃ unpulled,
    Kept all (queuedPerWorker * workers) [] unpulled
      (ofBatches setup batches workers progress) := by
  -- the account of the pool that has handed out nothing
  obtain ⟨hfirst, hrest⟩ := hload.gives.take (queuedPerWorker * workers)
  have hstaffed := hload.staffed
  have hstart : Accounted all [] (all.take (queuedPerWorker * workers) ++
      all.drop (queuedPerWorker * workers)) (unfilled setup batches workers progress) := by
    rw [List.take_append_drop]
    have hheld : (unfilled setup batches workers progress).held = [] := by
      rw [held, List.filterMap_eq_nil_iff]
      intro w hw
      rw [List.eq_of_mem_replicate hw]
      rfl
    have hunderway : (unfilled setup batches workers progress).underway = [] := by
      rw [underway, hheld]
      rfl
    refine ⟨?_, ?_, ?_, ?_⟩
    · rw [hunderway, List.append_nil]
      exact .of_eq (List.append_nil _)
    · rw [hunderway]
      exact .refl _
    · show (all.map Batch.size).sum + 0 + progress.rows = _
      rw [hload.fresh, Nat.add_zero]
    · rw [hheld]
      rintro b (hb | hb | hb)
      · exact hb
      · cases hb
      · cases hb
  have hfilled := hstart.dispatchAll hload.names
  rw [← hfirst] at hfilled
  obtain ⟨outstanding, heq, hlen⟩ := filled_eq setup batches workers progress
  refine ⟨all.drop (queuedPerWorker * workers), ?_⟩
  rw [ofBatches_eq]
  refine Kept.awaitBatches ⟨?_, hfilled, ?_, ?_⟩
  · rw [heq]
    exact hrest
  · intro hnil
    have hkeys := hfilled.keys.length_eq
    -- nothing is outstanding, so nothing was handed out, so there was nothing to hand out
    have hcount : (filled setup batches workers progress).queued.length = 0 := by
      rw [← filled, hnil] at hkeys
      simp only [underway, List.length_append, List.length_map, List.length_nil] at hkeys
      omega
    have hqueued : (filled setup batches workers progress).queued =
        all.take (queuedPerWorker * workers) := by
      rw [heq, queued, List.filterMap_map, hfirst]
      exact List.filterMap_some
    rw [hqueued, List.length_take] at hcount
    have hfour : queuedPerWorker = 4 := rfl
    rw [List.drop_eq_nil_iff]
    rw [hfour] at hcount ⊢
    omega
  · rw [heq]
    rw [hfirst, List.length_take] at hlen
    show outstanding.length ≤ _
    omega

/-- The account of a run that is not given up, at any time. -/
theorem Reaches.kept {batches : Batches RowIds.Stream} {workers : Nat} {progress : Progress}
    {h : History σ} (hp : Reaches setup (ofBatches setup batches workers progress) h p)
    (hload : Workload batches workers progress all) (hgoing : p.cancel = false) : ∃ unpulled,
    Kept all (queuedPerWorker * workers) (recordings h) unpulled p := by
  revert hgoing
  refine hp.invariant (I := fun recs _ p => p.cancel = false → ∃ unpulled,
    Kept all (queuedPerWorker * workers) recs unpulled p) ?_ ?_ ?_
  · intro _
    exact ofBatches_kept setup hload
  · intro h p q id w s _ hi hw hm hgoing
    have hs := hm.sameCoordinator
    obtain ⟨unpulled, hkept⟩ := hi (hs.cancel.symm.trans hgoing)
    refine ⟨unpulled, hs.rest ▸ hkept.rest, hkept.account.worker hw hm, ?_, ?_⟩
    · rw [hs.outstanding]
      exact hkept.busy
    · rw [hs.outstanding]
      exact hkept.bounded
  · intro h p q r hp hi hm hgoing
    obtain ⟨unpulled, hkept⟩ := hi (hm.going hgoing)
    exact hkept.coordinator hp.steered hload.names hload.countable hm hgoing

end Pool

/-! ## Runs of validated coordinators -/

namespace Coordinator

variable {σ : Type} {settings : Settings} {order : FieldOrder} {configured : List (Copy σ)}
  {c : Coordinator σ} {ids : Random.Source} {rows : RowIds.Stream} {entropy : Entropy}
  {settle : Pool.Settling σ} {h : Pool.History σ} {p : Pool σ}

/-- What is known of an accepted coordinator. -/
theorem ofSettings_eq_ok (hc : ofSettings settings order configured = .ok c) :
    settings.validate configured.length = .ok () ∧
      (∃ fields, selectFields order configured = .ok fields) ∧
      c = ⟨settings, order, configured, .filling⟩ := by
  rw [ofSettings] at hc
  cases hv : settings.validate configured.length with
  | error f =>
    rw [hv] at hc
    cases hc
  | ok u =>
    rw [hv] at hc
    cases hf : selectFields order configured with
    | error f =>
      rw [hf] at hc
      cases hc
    | ok fields =>
      rw [hf] at hc
      cases hc
      exact ⟨rfl, ⟨fields, rfl⟩, rfl⟩

/-- The batches of a run are a workload for its workers, and they hold its rows. -/
theorem workload_of_run (hrows : settings.rowStream ids = .ok rows) (hworkers : 0 < settings.workers) :
    ∃ all, Pool.Workload (.ofSize rows settings.batchSize.toNat) settings.workers
        (.ofTotal settings.rows settings.verbose) all ∧
      all.flatMap Batch.rows = rows.toList ∧ (all.map Batch.size).sum = settings.rows := by
  obtain ⟨hsound, hremaining⟩ := RowIds.Plan.stream_sound hrows
  obtain ⟨all, hgives, hflat, hnonempty, hnames⟩ :=
    Batches.gives_of_sound hsound settings.batchSize.toNat
  have hsum : (all.map Batch.size).sum = settings.rows := by
    rw [Batches.sum_size, hflat, hsound.length_toList, hremaining]
  refine ⟨all, ⟨hgives, hnonempty, hnames, ?_, ?_, hworkers, rfl⟩, hflat, hsum⟩
  · rw [hflat]
    exact hsound.ids_nodup
  · rw [hsum]
    exact Nat.le_sub_one_of_lt settings.numRows.toNat_lt

/-! ### A pair of workers -/

/-- The settings of two workers and one row. -/
def pairSettings : Settings := ⟨some 1, 2, 1, 1, 1, false⟩

/-- The row of a pair of workers. -/
def pairRows : RowIds.Stream := ⟨#[0], #[0], 0, 0, some 2, 1⟩

/-- A coordinator of two workers and one row. -/
def pair (configured : List (Copy Unit)) : Coordinator Unit :=
  ⟨pairSettings, .empty, configured, .filling⟩

def pairSetup (configured : List (Copy Unit)) : Pool.Setup Unit :=
  (pair configured).setup (fun _ => .ofSeed 0) .alike

/-- The pool of a pair after a number of moves in rounds. -/
def pairPool (configured : List (Copy Unit)) (moves : Nat) : Pool Unit :=
  ((pair configured).pool (fun _ => .ofSeed 0) .alike pairRows).run (pairSetup configured)
    (Pool.rounds 2) moves 0

theorem pairSettings_rowStream : pairSettings.rowStream (.ofSeed 0) = .ok pairRows := rfl

theorem pair_reaches (configured : List (Copy Unit)) (moves : Nat) : ∃ h,
    Pool.Reaches (pairSetup configured) (pairPool configured 0) h (pairPool configured moves) :=
  Pool.Reaches.start.run (Pool.rounds 2) moves 0

/-- Copies that count rows. -/
def counting : List (Copy Unit) := [.fresh (.count Unit) ()]

theorem ofSettings_counting : ofSettings pairSettings .empty counting = .ok (pair counting) := rfl

/-! ### Delivery -/

/-- In every state that a pool of a validated coordinator can get to before the coordinator gives
the run up or returns, every batch is in one place: not handed out, queued, held by a worker, in a
report, or recorded. The outstanding batches are the ones in the three places in between, so that
handing a batch out replaces no entry and every report finds one; there are at most four for each
worker. Once the coordinator drains the pool, all batches were handed out, the tally of every
aggregator holds each batch once, and the progress is complete. -/
theorem batches_delivered_once (hc : ofSettings settings order configured = .ok c)
    (hworkers : 2 ≤ settings.workers) (hrows : settings.rowStream ids = .ok rows)
    (hp : Pool.Reaches (c.setup entropy settle) (c.pool entropy settle rows) h p) :
    ∃ all : List Batch, (Batches.ofSize rows settings.batchSize.toNat).Gives all ∧
      all.flatMap Batch.rows = rows.toList ∧ (all.map Batch.id).Nodup ∧
      (p.control.Live → ∃ unpulled, p.rest.Gives unpulled ∧
        (unpulled.map Batch.id ++
          (p.queued.map Batch.id ++ p.held.map Batch.id ++ p.reported) ++
          (Pool.recordings h).map Pool.Recording.id).Perm (all.map Batch.id) ∧
        (∀ b, b ∈ unpulled ∨ b ∈ p.queued ∨ b ∈ p.held → b ∈ all) ∧
        (p.outstanding.map Prod.fst).Perm
          (p.queued.map Batch.id ++ p.held.map Batch.id ++ p.reported) ∧
        (∀ b ∈ unpulled, p.outstanding.lookup b.id = none) ∧
        (∀ id worker results, .generated id worker results ∈ p.reports →
          ∃ size, p.outstanding.lookup id = some size) ∧
        p.outstanding.length ≤ 4 * settings.workers) ∧
      (p.control.Live → p.phase = .draining → p.rest.next? = none ∧
        ((Pool.recordings h).map Pool.Recording.id).Perm (all.map Batch.id) ∧
        (∀ i < configured.length, ∃ column, p.tally[i]? = some column ∧
          column.map some = (Pool.recordings h).map fun r => r.results[i]?) ∧
        p.progress.rows = settings.rows) := by
  obtain ⟨-, -, rfl⟩ := ofSettings_eq_ok hc
  obtain ⟨all, hload, hflat, hsum⟩ := workload_of_run hrows (Nat.lt_of_lt_of_le Nat.two_pos hworkers)
  have hnodup := hload.names
  have hsteered := hp.steered
  have hkept : p.control.Live → ∃ unpulled, Pool.Kept all (4 * settings.workers)
      (Pool.recordings h) unpulled p := fun hlive => hp.kept hload (hsteered.going hlive)
  refine ⟨all, hload.gives, hflat, hnodup, ?_, ?_⟩
  -- before the run is given up or over
  · intro hlive
    obtain ⟨unpulled, hk⟩ := hkept hlive
    have hnames := hk.account.names_nodup hnodup
    refine ⟨unpulled, hk.rest, hk.account.places, hk.account.known, hk.account.keys, ?_, ?_,
      hk.bounded⟩
    · -- a batch to come is not under way, and what is outstanding is
      intro b hb
      rw [List.lookup_eq_none_iff]
      intro e he
      have hkey : e.1 ∈ p.underway := hk.account.keys.mem_iff.mp (List.mem_map_of_mem he)
      have hne := (List.nodup_append.mp hnames).2.2 _ (List.mem_map_of_mem hb) _ hkey
      exact bne_iff_ne.mpr hne
    · intro id worker results hr
      have hreported : id ∈ p.reported := List.mem_filterMap.mpr ⟨_, hr, rfl⟩
      have hkey := hk.account.keys.mem_iff.mpr (List.mem_append_right _ hreported)
      obtain ⟨e, he, rfl⟩ := List.mem_map.mp hkey
      exact Option.isSome_iff_exists.mp
        (List.lookup_isSome_iff.mpr ⟨e, he, beq_self_eq_true _⟩)
  -- once the pool is drained
  · intro hlive hdraining
    obtain ⟨unpulled, hk⟩ := hkept hlive
    have hout := hsteered.emptied (hsteered.going hlive) (.inl hdraining)
    obtain ⟨rfl, hrecorded⟩ := hk.finished hout
    have htallied := hp.tallied
    refine ⟨?_, hrecorded, ?_, ?_⟩
    · cases hn : p.rest.next? with
      | none => rfl
      | some next => cases (hk.rest.eq_cons hn).choose_spec.1
    · intro i hi
      rw [htallied.tally]
      exact Pool.tallyOf_getElem? htallied.counted hi
    · have hrows := hk.account.rows
      rw [hout, hsum] at hrows
      simpa only [List.map_nil, List.sum_nil, Nat.zero_add] using hrows

/-- A pair of workers drains its pool after its only row has been counted. -/
theorem batches_delivered_once_pair : (pairPool counting 23).phase = .draining ∧
    (pairPool counting 23).rest.next? = none ∧ (pairPool counting 23).progress.rows = 1 := by
  obtain ⟨h, hp⟩ := pair_reaches counting 23
  have hcontrol : (pairPool counting 23).control = .closing 2 := rfl
  have hphase : (pairPool counting 23).phase = .draining := rfl
  obtain ⟨all, -, -, -, -, hdrained⟩ :=
    batches_delivered_once ofSettings_counting (by decide) pairSettings_rowStream hp
  obtain ⟨hnone, -, -, hprogress⟩ := hdrained (by rw [hcontrol]; trivial) hphase
  exact ⟨hphase, hnone, hprogress⟩

end Coordinator

end SeededRows
