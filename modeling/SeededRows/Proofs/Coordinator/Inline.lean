/-
  SeededRows.Proofs.Coordinator.Inline

  What a run on the calling thread comes to when all aggregators sum rows. It ends well exactly
  when the specs of all its rows are good, and then the result of each aggregator is its
  accumulator of all rows. The batches are folded twice on the way, row by row into accumulators
  of batches and batch by batch into results; the groups in between leave no trace.
-/
import SeededRows.Coordinator
import SeededRows.Proofs.Engine.Digest
import SeededRows.Proofs.RowIds.Batches

namespace SeededRows

variable {σ : Type} {order : FieldOrder} {fields : List String} {entropy : Entropy}
  {Ss : List (Summer σ)}

/-! ## Tallies of groups of rows -/

theorem Tally.record_of_length {t : Tally} {results : List Accumulator}
    (h : results.length = t.length) : t.record results = .ok (List.zipWith (· :: ·) results t) := by
  rw [record, if_pos h]

/-- A tally of groups of rows, the earliest first: for every aggregator one accumulator of each
group. -/
def Tallies (Ss : List (Summer σ)) (groups : List (List Row)) : Tally → Prop :=
  List.Forall₂ (fun S column => List.Forall₂ S.Accumulates groups column.reverse) Ss

/-- Named accumulators of some rows, one for each aggregator. -/
def SumsUp (Ss : List (Summer σ)) (rows : List Row) : Results → Prop :=
  List.Forall₂ (fun S entry => entry.1 = S.aggregator.name ∧ S.Accumulates rows entry.2) Ss

theorem Tallies.empty (Ss : List (Summer σ)) : Tallies Ss [] (.empty Ss.length) := by
  induction Ss with
  | nil => exact .nil
  | cons S Ss ih => exact .cons .nil ih

theorem Tallies.record {groups : List (List Row)} {rows : List Row} {tally : Tally}
    {results : List Accumulator} (h : Tallies Ss groups tally) (hr : Digests Ss rows results) :
    Tallies Ss (groups ++ [rows]) (List.zipWith (· :: ·) results tally) := by
  induction h generalizing results with
  | nil =>
    cases hr
    exact .nil
  | @cons S column Ss tally hcolumn _ ih =>
    cases hr with
    | cons hacc hrest =>
      refine .cons ?_ (ih hrest)
      rw [List.reverse_cons]
      exact List.rel_append hcolumn (.cons hacc .nil)

/-- Results of the same rows are the same, in whatever order the rows are. -/
theorem SumsUp.unique {rows others : List Row} {results results' : Results}
    (h : SumsUp Ss rows results) (h' : SumsUp Ss others results') (hperm : rows.Perm others) :
    results = results' := by
  induction h generalizing results' with
  | nil =>
    cases h'
    rfl
  | cons hentry _ ih =>
    cases h' with
    | cons hentry' hrest' =>
      rw [ih hrest', Prod.ext (hentry.1.trans hentry'.1.symm) (hentry.2.unique hentry'.2 hperm)]

/-- The final reduction of a tally of groups sums all their rows up. -/
theorem Tallies.reduce {groups : List (List Row)} {tally : Tally} (h : Tallies Ss groups tally)
    (hne : groups ≠ []) (hsum : Summable groups.flatten) {copies : List (Copy σ)}
    (hcopies : CopiesOf Ss copies) :
    ∃ results, (Copies.reduce copies tally).1 = .ok results ∧ SumsUp Ss groups.flatten results := by
  induction h generalizing copies with
  | nil =>
    cases hcopies
    exact ⟨[], rfl, .nil⟩
  | @cons S column Ss tally hcolumn _ ih =>
    cases hcopies with
    | @cons _ c _ rest hc hrest =>
      obtain ⟨acc, c', hreduce, hacc, haggregator⟩ := hc.reduce hcolumn hne hsum
      obtain ⟨results, hresults, hsums⟩ := ih hrest
      refine ⟨(S.aggregator.name, acc) :: results, ?_, .cons ⟨rfl, hacc⟩ hsums⟩
      have hname : c'.aggregator.name = S.aggregator.name := by rw [haggregator, hc]
      rw [Copies.reduce, hreduce]
      dsimp only
      rw [hresults, hname]
      rfl

/-! ## The loop over batches -/

namespace Inline

/-- What the loop over batches comes to: it works through all of them if their specs are good, and
else it fails. -/
theorem drive_cases {bs : List Batch} {batches : Batches RowIds.Stream} (hgives : batches.Gives bs)
    (hne : ∀ b ∈ bs, b.rows ≠ []) (hcount : Countable (bs.flatMap Batch.rows)) {n : Nat}
    (hn : bs.length ≤ n) {engine : Engine σ} (hengine : engine.Digesting order fields Ss)
    {groups : List (List Row)} {tally : Tally} (htally : Tallies Ss groups tally)
    (progress : Progress) :
    ((∀ spec ∈ bs.flatMap Batch.rows, Good order fields entropy Ss spec) ∧
      ∃ tally' engine' progress',
        drive entropy n batches engine tally progress = (.finished tally', engine', progress') ∧
        Tallies Ss (groups ++ bs.map (rowsOf order fields entropy)) tally' ∧
        engine'.Digesting order fields Ss) ∨
    ((¬ ∀ spec ∈ bs.flatMap Batch.rows, Good order fields entropy Ss spec) ∧
      ∃ info engine' progress',
        drive entropy n batches engine tally progress = (.failed info, engine', progress')) := by
  induction hgives generalizing n engine groups tally progress with
  | ends hnone =>
    -- no batch is left
    refine .inl ⟨by simp, tally, engine, progress, ?_, ?_, hengine⟩
    · cases n with
      | zero => rfl
      | succ n => rw [drive, hnone]
    · rwa [List.map_nil, List.append_nil]
  | @batch batches rest b bs hnext _ ih =>
    rw [List.length_cons] at hn
    obtain ⟨n, rfl⟩ : ∃ k, n = k + 1 := ⟨n - 1, by omega⟩
    have hn := Nat.le_of_succ_le_succ hn
    rw [List.flatMap_cons] at hcount ⊢
    have hb : b.rows ≠ [] := hne b List.mem_cons_self
    have hbcount : Countable b.rows := hcount.sublist (List.sublist_append_left _ _)
    rcases hp : engine.process entropy (fun _ => false) b.rows with ⟨halt | results, engine'⟩
    · -- nothing cancels the run, so it was stopped by a spec that is not good
      right
      have hnot : ¬ ∀ spec ∈ b.rows ++ bs.flatMap Batch.rows, Good order fields entropy Ss spec := by
        intro hgood
        obtain ⟨results, engine'', hok⟩ := hengine.process_ok (fun _ => rfl) hb hbcount
          fun spec hspec => hgood spec (List.mem_append_left _ hspec)
        cases hp.symm.trans hok
      cases halt with
      | stop s =>
        refine ⟨hnot, .ofStop s, engine', progress, ?_⟩
        rw [drive, hnext]
        dsimp only
        rw [hp]
        rfl
      | cancelled =>
        obtain ⟨i, hi⟩ := Engine.process_cancelled (congrArg Prod.fst hp)
        cases hi
    · -- the batch was digested, and the loop goes on with a group more
      obtain ⟨hgood, hdigests, hengine'⟩ := hengine.of_process hb hbcount hp
      have hrecord : tally.record results = .ok (List.zipWith (· :: ·) results tally) :=
        Tally.record_of_length
          ((List.Forall₂.length_eq hdigests).symm.trans (List.Forall₂.length_eq htally))
      have hstep : drive entropy (n + 1) batches engine tally progress =
          drive entropy n rest engine' (List.zipWith (· :: ·) results tally)
            (progress.add b.size) := by
        rw [drive, hnext]
        dsimp only
        rw [hp]
        dsimp only
        rw [hrecord]
      rcases ih (fun b' hb' => hne b' (List.mem_cons_of_mem b hb'))
          (hcount.sublist (List.sublist_append_right _ _)) hn hengine' (htally.record hdigests)
          (progress.add b.size) with
        ⟨hrest, tally', engine'', progress', hdrive, htally', hengine''⟩ |
        ⟨hrest, info, engine'', progress', hdrive⟩
      · refine .inl ⟨?_, tally', engine'', progress', hstep.trans hdrive, ?_, hengine''⟩
        · intro spec hspec
          rcases List.mem_append.mp hspec with hspec | hspec
          · exact hgood spec hspec
          · exact hrest spec hspec
        · rw [List.append_assoc] at htally'
          exact htally'
      · refine .inr ⟨?_, info, engine'', progress', hstep.trans hdrive⟩
        exact fun hall => hrest fun spec hspec => hall spec (List.mem_append_right _ hspec)

end Inline

/-! ## Runs on the calling thread -/

/-- There are no more batches than rows. -/
theorem length_le_rows {bs : List Batch} (hne : ∀ b ∈ bs, b.rows ≠ []) :
    bs.length ≤ (bs.flatMap Batch.rows).length := by
  induction bs with
  | nil => exact Nat.le_refl 0
  | cons b bs ih =>
    have hb := List.length_pos_iff.mpr (hne b List.mem_cons_self)
    have hrest := ih fun b' hb' => hne b' (List.mem_cons_of_mem b hb')
    rw [List.flatMap_cons, List.length_append, List.length_cons]
    omega

/-- The result of a run is what the loop over batches leaves, if it goes well. -/
theorem Inline.run_finished {configured copies : List (Copy σ)} {batches : Batches RowIds.Stream}
    {engine engine' : Engine σ} {tally : Tally} {progress progress' : Progress}
    (hstart : Engine.start order configured = (.ok engine, copies))
    (hdrive : drive entropy (batches.rows.remaining + 1) batches engine (.empty configured.length)
      progress = (.finished tally, engine', progress'))
    (hdone : engine'.done.1 = .ok ()) :
    Inline.run order configured entropy batches progress =
      (.finished tally, engine'.done.2.copies, progress') := by
  have hdone' : engine'.done = (.ok (), engine'.done.2) := Prod.ext hdone rfl
  rw [Inline.run, hstart]
  dsimp only
  rw [hdrive]
  dsimp only
  rw [hdone']

theorem Inline.run_failed {configured copies : List (Copy σ)} {batches : Batches RowIds.Stream}
    {engine engine' : Engine σ} {info : ErrorInfo} {progress progress' : Progress}
    (hstart : Engine.start order configured = (.ok engine, copies))
    (hdrive : drive entropy (batches.rows.remaining + 1) batches engine (.empty configured.length)
      progress = (.failed info, engine', progress')) :
    Inline.run order configured entropy batches progress =
      (.failed info, engine'.done.2.copies, progress') := by
  rw [Inline.run, hstart]
  dsimp only
  rw [hdrive]

namespace Coordinator

variable {c : Coordinator σ} {rows : RowIds.Stream}

theorem ending_of_finished {tally : Tally} {copies : List (Copy σ)} {progress : Progress}
    {results : Results}
    (hrun : Inline.run c.order c.configured entropy
      (Batches.ofSize rows c.settings.batchSize.toNat)
      (.ofTotal c.settings.rows c.settings.verbose) = (.finished tally, copies, progress))
    (hreduce : (Copies.reduce c.configured tally).1 = .ok results) :
    (c.runInline entropy rows).ending = .finished results := by
  have hreduce' : Copies.reduce c.configured tally =
      (.ok results, (Copies.reduce c.configured tally).2) := Prod.ext hreduce rfl
  rw [runInline, hrun]
  dsimp only
  rw [hreduce']
  rfl

theorem ending_of_failed {info : ErrorInfo} {copies : List (Copy σ)} {progress : Progress}
    (hrun : Inline.run c.order c.configured entropy
      (Batches.ofSize rows c.settings.batchSize.toNat)
      (.ofTotal c.settings.rows c.settings.verbose) = (.failed info, copies, progress)) :
    (c.runInline entropy rows).ending = .failed (.workerFailure 0 info) := by
  rw [runInline, hrun]

/-- The batches that the calling thread works through: there is at least one, as there is a row, and
no more of them than rows. -/
theorem batches_of_rows (hsound : rows.Sound) (hremaining : 0 < rows.remaining)
    (hcount : rows.remaining < UInt64.size) (size : Nat) :
    Countable rows.toList ∧ ∃ bs, (Batches.ofSize rows size).Gives bs ∧
      bs.flatMap Batch.rows = rows.toList ∧ (∀ b ∈ bs, b.rows ≠ []) ∧ bs ≠ [] ∧
      bs.length ≤ rows.remaining := by
  obtain ⟨bs, hgives, hflat, hne, -⟩ := Batches.gives_of_sound hsound size
  have hlen := hsound.length_toList
  have hlength := length_le_rows hne
  rw [hflat, hlen] at hlength
  refine ⟨⟨hsound.ids_nodup, hlen ▸ hcount⟩, bs, hgives, hflat, hne, ?_, hlength⟩
  rintro rfl
  rw [← hflat, List.flatMap_nil, List.length_nil] at hlen
  omega

/-- A run on the calling thread ends well exactly when the specs of all its rows are good, and then
it sums them up. -/
theorem ending_runInline (hcopies : CopiesOf Ss c.configured)
    (hfields : selectFields c.order c.configured = .ok fields)
    (hstarts : ∀ copy ∈ c.configured, copy.clone.start.1 = .ok ()) (hsound : rows.Sound)
    (hremaining : 0 < rows.remaining) (hcount : rows.remaining < UInt64.size) :
    ((∀ spec ∈ rows.toList, Good c.order fields entropy Ss spec) ∧
      ∃ results, (c.runInline entropy rows).ending = .finished results ∧
        SumsUp Ss (rows.toList.map (rowOf c.order fields entropy)) results) ∨
    ((¬ ∀ spec ∈ rows.toList, Good c.order fields entropy Ss spec) ∧
      ∀ results, (c.runInline entropy rows).ending ≠ .finished results) := by
  obtain ⟨hcountable, bs, hgives, hflat, hne, hsome, hlength⟩ :=
    batches_of_rows hsound hremaining hcount c.settings.batchSize.toNat
  obtain ⟨engine, copies, hstart, hengine⟩ :=
    Engine.start_digesting hcopies hcopies hfields hstarts
  have hempty : Tallies Ss [] (.empty c.configured.length) := by
    have h := Tallies.empty Ss
    rwa [List.Forall₂.length_eq hcopies] at h
  rcases Inline.drive_cases hgives hne (hflat.symm ▸ hcountable) (Nat.le_succ_of_le hlength) hengine
      hempty (Progress.ofTotal c.settings.rows c.settings.verbose) with
    ⟨hgood, tally, engine', progress, hdrive, htally, hengine'⟩ |
    ⟨hbad, info, engine', progress, hdrive⟩
  · left
    rw [hflat] at hgood
    rw [List.nil_append] at htally
    have hgroups : bs.map (rowsOf c.order fields entropy) ≠ [] := by simpa using hsome
    have hsum : Summable (bs.map (rowsOf c.order fields entropy)).flatten := by
      rw [flatten_rowsOf, hflat]
      exact hcountable.summable
    obtain ⟨results, hreduce, hsums⟩ := htally.reduce hgroups hsum hcopies
    rw [flatten_rowsOf, hflat] at hsums
    exact ⟨hgood, results,
      ending_of_finished (Inline.run_finished hstart hdrive hengine'.done) hreduce, hsums⟩
  · right
    rw [hflat] at hbad
    refine ⟨hbad, ?_⟩
    intro results
    rw [ending_of_failed (Inline.run_failed hstart hdrive)]
    exact fun h => nomatch h

end Coordinator

end SeededRows
