/-
  SeededRows.Proofs.Coordinator.Recording

  Batches either yield one accumulator for each aggregator or leave nothing to record. An engine whose
  batch is given up before its aggregators see a row is as it was, and one whose batch is worked
  through has an accumulator of every copy; so in no run, on a pool or on the calling thread, does the
  tally get a wrong number of accumulators.
-/
import SeededRows.Proofs.Coordinator.Inline
import SeededRows.Proofs.Coordinator.Starts
import SeededRows.Proofs.Engine.Atomicity
import SeededRows.Proofs.Pool.Failures

namespace SeededRows

variable {σ : Type}

/-! ## Runs on a pool -/

namespace Pool

variable {setup : Setup σ} {batches : Batches RowIds.Stream} {workers : Nat} {progress : Progress}
  {h : History σ} {p : Pool σ}

/-- The tally can record every report of a batch. -/
theorem Reaches.recordable (hp : Reaches setup (ofBatches setup batches workers progress) h p)
    {id : BatchId} {worker : Nat} {results : List Accumulator}
    (hr : .generated id worker results ∈ p.reports) :
    results.length = setup.configured.length ∧ ∃ tally, p.tally.record results = .ok tally := by
  have hresults : results.length = setup.configured.length := hp.equipped.results hr
  have htally : p.tally.length = setup.configured.length := by
    rw [hp.tallied.tally, length_tallyOf hp.tallied.counted]
  exact ⟨hresults, _, Tally.record_of_length (hresults.trans htally.symm)⟩

theorem refusal_ne_resultCount {expected got : Nat} : p.refusal? ≠ some (.resultCount expected got) := by
  rw [refusal?]
  split
  · simp
  · split <;> simp

/-- No pool is given up for a wrong number of accumulators. -/
theorem Reaches.verdict_ne_resultCount
    (hp : Reaches setup (ofBatches setup batches workers progress) h p) {expected got : Nat} :
    p.verdict? ≠ some (.protocol (.resultCount expected got)) := by
  refine hp.invariant
    (I := fun _ _ p => p.verdict? ≠ some (.protocol (.resultCount expected got))) ?_ ?_ ?_
  · rw [verdict?]
    rcases (ofBatches_untouched setup batches workers progress).control with hc | hc <;> simp [hc]
  · intro h p q id w s _ hi _ hm
    rwa [verdict?, hm.sameCoordinator.control]
  · intro h p q r hp hi hm
    cases hm with
    -- a report with a wrong number of accumulators would be the only reason
    | rejects at_control sent wrong =>
      intro hverdict
      cases hverdict
      cases wrong with
      | miscounted wrong =>
        obtain ⟨-, tally, hrecord⟩ := hp.recordable (sent ▸ List.mem_cons_self)
        exact wrong (tally_record_eq_ok hrecord).1
    | cannotRefill at_control sent counted refused =>
      intro hverdict
      cases hverdict
      exact refusal_ne_resultCount refused
    | cannotSend at_control refused =>
      intro hverdict
      cases hverdict
      exact refusal_ne_resultCount refused
    | aborts at_control =>
      rw [verdict?, at_control] at hi
      exact hi
    | findsClosed =>
      intro hverdict
      by_cases hdraining : p.phase = .draining
      · simp [verdict?, abort, hdraining] at hverdict
      · simp [verdict?, abort, hdraining] at hverdict
    | records _ _ _ _ _ filled =>
      rw [verdict?]
      rcases (recorded_refill filled).control with hq | hq <;> simp [hq]
    | @notes worker reports =>
      rw [verdict?]
      rcases (noteDying_noted { p with reports } worker).control with hq | hq <;> simp [hq]
    | _ =>
      intro hverdict
      cases hverdict

end Pool

/-! ## Runs on the calling thread -/

/-- What stops a hook or a draw is no broken protocol. -/
theorem ErrorInfo.kind_ofStop (s : Stop) : (ErrorInfo.ofStop s).kind ≠ "protocol" := by
  rcases s with f | crash
  · show f.kind ≠ "protocol"
    cases f <;> simp [Fault.kind]
  · show "panic" ≠ "protocol"
    decide

namespace Inline

variable {order : FieldOrder} {configured copies : List (Copy σ)} {entropy : Entropy}
  {batches : Batches RowIds.Stream} {engine engine' : Engine σ} {tally : Tally}
  {progress progress' : Progress} {info : ErrorInfo}

theorem kind_ofHalt {α : Type} {halt : Halt} (h : Guarded.ofHalt halt = (.failed info : Guarded α)) :
    info.kind ≠ "protocol" := by
  cases halt with
  | stop s =>
    cases h
    exact ErrorInfo.kind_ofStop s
  | cancelled => cases h

/-- With a column for each copy of the engine, every batch can be recorded. -/
theorem drive_kind {n : Nat} (htally : tally.length = engine.copies.length)
    (h : drive entropy n batches engine tally progress = (.failed info, engine', progress')) :
    info.kind ≠ "protocol" := by
  -- the columns and the copies stay as many as they are
  induction n generalizing batches engine tally progress with
  | zero => cases h
  | succ n ih =>
    rw [drive] at h
    rcases hnext : batches.next? with _ | ⟨b, rest⟩
    · rw [hnext] at h
      cases h
    · rw [hnext] at h
      dsimp only at h
      have hcopies := engine.length_copies_process entropy (fun _ => false) b.rows
      rcases hprocess : engine.process entropy (fun _ => false) b.rows with ⟨halt | results, engine₁⟩
      · rw [hprocess] at h
        exact kind_ofHalt (congrArg Prod.fst h)
      · rw [hprocess] at h hcopies
        have hresults : results.length = tally.length :=
          (Engine.length_results (congrArg Prod.fst hprocess)).trans htally.symm
        dsimp only at h hcopies
        rw [Tally.record_of_length hresults] at h
        refine ih ?_ h
        rw [List.length_zipWith, hresults, Nat.min_self, htally, hcopies]

theorem run_kind
    (h : run order configured entropy batches progress = (.failed info, copies, progress')) :
    info.kind ≠ "protocol" := by
  rw [run] at h
  rcases hstart : Engine.start order configured with ⟨s | engine, fresh⟩
  · rw [hstart] at h
    cases h
    exact ErrorInfo.kind_ofStop s
  · rw [hstart] at h
    dsimp only at h
    have htally : (Tally.empty configured.length).length = engine.copies.length := by
      rw [Tally.empty, List.length_replicate, Engine.length_copies_start hstart]
    rcases hdrive : drive entropy (batches.rows.remaining + 1) batches engine
      (.empty configured.length) progress with ⟨tally | _ | told, engine₁, progress₁⟩
    · rw [hdrive] at h
      dsimp only at h
      rcases hdone : engine₁.done with ⟨s | ⟨⟩, engine₂⟩
      · rw [hdone] at h
        cases h
        exact ErrorInfo.kind_ofStop s
      · rw [hdone] at h
        cases h
    · rw [hdrive] at h
      cases h
    · rw [hdrive] at h
      cases h
      exact drive_kind htally hdrive

end Inline

/-! ## Runs -/

namespace Coordinator

variable {c : Coordinator σ} {entropy : Entropy}

theorem runInline_failed {rows : RowIds.Stream} {error : RunError}
    (h : (c.runInline entropy rows).ending = .failed error) (herror : ∀ f, error ≠ .fault f) :
    error = .cancelled ∨ ∃ info, error = .workerFailure 0 info ∧ info.kind ≠ "protocol" := by
  rw [runInline] at h
  split at h
  · rename_i tally copies progress hrun
    split at h
    · cases h
    · exact absurd h (reduced_ne_failed _ herror)
  · cases h
    exact .inl rfl
  · rename_i info copies progress hrun
    cases h
    exact .inr ⟨info, rfl, Inline.run_kind hrun⟩

/-- No start of a coordinator fails for a wrong number of accumulators, neither on a pool nor on the
calling thread, where that would be told as a failure of worker 0 with the kind of a broken protocol. -/
theorem Started.counted {ids : Random.Source} {settle : Pool.Settling σ} {run : Run σ}
    (h : c.Started ids entropy settle run) {expected got : Nat} :
    run.ending ≠ .failed (.protocol (.resultCount expected got)) ∧
      (c.settings.workers = 1 → ∀ info, run.ending = .failed (.workerFailure 0 info) →
        info.kind ≠ "protocol") := by
  cases h with
  | again | unlaid | crowded =>
    constructor
    · rintro ⟨⟩
    · rintro - info ⟨⟩
  | @inline rows new laid one =>
    refine ⟨fun h => ?_, fun _ info h => ?_⟩
    · obtain hcancelled | ⟨info, hinfo, -⟩ := runInline_failed h (by simp)
      · cases hcancelled
      · cases hinfo
    · obtain hcancelled | ⟨info', hinfo, hkind⟩ := runInline_failed h (by simp)
      · cases hcancelled
      · cases hinfo
        exact hkind
  | @pooled rows h p new laid many room reached =>
    refine ⟨fun hending => ?_, fun one => absurd one many⟩
    exact reached.verdict_ne_resultCount (verdict_of_failed (by simp) hending)

/-- Batches feed their aggregators completely or not at all. An engine in any state gives a batch up
just when a row stops or the run is seen to be cancelled before one: it then reports the first such
event, has set out to draw no row after it, and is as it was. Otherwise its copies are fed all rows,
in the order of the specs: the batch yields one accumulator for each copy, in their order, or it ends
with the first copy that stops, and those after it are as they were. So in every run of every
coordinator the tally can record what a worker reports, and no run fails for a wrong number of
accumulators. -/
theorem batches_feed_all_or_nothing (e : Engine σ) (cancelled : Nat → Bool) (specs : List RowSpec)
    (c : Coordinator σ) (ids : Random.Source) (entropy : Entropy) (settle : Pool.Settling σ) :
    ((∃ before spec halt, e.GivesUp entropy cancelled specs before spec halt) ↔
      ∃ place spec, specs[place]? = some spec ∧
        (cancelled place = true ∨ ∃ stop, e.generateRow entropy spec = .error stop)) ∧
    (∀ before spec halt, e.GivesUp entropy cancelled specs before spec halt →
      e.process entropy cancelled specs = (.error halt, e) ∧
      e.drawing entropy cancelled 0 specs = (e.generateRows entropy cancelled 0 specs,
        if cancelled before.length then before else before ++ [spec])) ∧
    ((¬ ∃ before spec halt, e.GivesUp entropy cancelled specs before spec halt) →
      ∃ rows, e.DrawsAll entropy cancelled specs rows ∧
        ((∃ accs copies', Copies.Fed rows e.copies accs copies' ∧
            e.process entropy cancelled specs = (.ok accs, { e with copies := copies' })) ∨
          ∃ stop copies', Copies.StopsAt rows e.copies stop copies' ∧
            e.process entropy cancelled specs = (.error (.stop stop), { e with copies := copies' }))) ∧
    (∀ accs e', e.process entropy cancelled specs = (.ok accs, e') →
      accs.length = e.copies.length ∧ ∃ rows copies', e.DrawsAll entropy cancelled specs rows ∧
        Copies.Fed rows e.copies accs copies' ∧ e' = { e with copies := copies' }) ∧
    (∀ rows h p, Pool.Reaches (c.setup entropy settle) (c.pool entropy settle rows) h p →
      ∀ id worker results, .generated id worker results ∈ p.reports →
        results.length = c.configured.length ∧ ∃ tally, p.tally.record results = .ok tally) ∧
    ∀ schedule moves expected got,
      (c.startAmid ids entropy settle schedule moves).ending ≠
        .failed (.protocol (.resultCount expected got)) ∧
      (c.settings.workers = 1 → ∀ info,
        (c.startAmid ids entropy settle schedule moves).ending = .failed (.workerFailure 0 info) →
        info.kind ≠ "protocol") := by
  refine ⟨Engine.givesUp_iff, ?_, ?_, ?_, ?_, ?_⟩
  · intro before spec halt h
    exact ⟨h.process, by rw [← Engine.drawing_fst, h.drawing]⟩
  · intro hnone
    obtain ⟨rows, hrows⟩ := (Engine.drawsAll_or_givesUp e entropy cancelled specs).resolve_right hnone
    refine ⟨rows, hrows, ?_⟩
    obtain ⟨accs, copies', hfed⟩ | ⟨stop, copies', hstops⟩ := Copies.fed_or_stopsAt rows e.copies
    · exact .inl ⟨accs, copies', hfed, hrows.process_fed hfed⟩
    · exact .inr ⟨stop, copies', hstops, hrows.process_stopsAt hstops⟩
  · intro accs e' h
    exact ⟨Engine.length_results (congrArg Prod.fst h), Engine.process_eq_ok h⟩
  · intro rows h p hp id worker results hr
    exact hp.recordable hr
  · intro schedule moves expected got
    exact (startAmid_started c ids entropy settle schedule moves).counted

/-- An engine that draws a label for the row id and counts rows. -/
def halving : Engine Unit :=
  ⟨⟨[("half", Bucket.draw ⟨"id", #[100], #["first", "second"]⟩)]⟩, ["half"], counting⟩

/-- Three rows, of which the second one has an id that is too large for a label. -/
def halvingRows : List RowSpec := [⟨1, none⟩, ⟨9223372036854775808, none⟩, ⟨2, none⟩]

/-- The second row stops the batch, or is not begun in a run that is cancelled before it; the others
are counted; and the only row of a pair of workers is counted once. -/
theorem batches_feed_all_or_nothing_halving :
    halving.process (fun _ => .ofSeed 0) (fun _ => false) halvingRows =
      (.error (.stop (.fault (Bucket.noInteger "id"))), halving) ∧
    (halving.drawing (fun _ => .ofSeed 0) (fun _ => false) 0 halvingRows).2 = halvingRows.take 2 ∧
    halving.process (fun _ => .ofSeed 0) (· == 1) halvingRows = (.error .cancelled, halving) ∧
    (halving.drawing (fun _ => .ofSeed 0) (· == 1) 0 halvingRows).2 = halvingRows.take 1 ∧
    (∃ accs engine, halving.process (fun _ => .ofSeed 0) (fun _ => false) [⟨1, none⟩, ⟨2, none⟩] =
      (.ok accs, engine) ∧ accs.length = 1) ∧
    (pairPool counting 17).reports ≠ [] ∧
    ∀ id worker results, .generated id worker results ∈ (pairPool counting 17).reports →
      results.length = 1 := by
  have hfirst : ∃ row, halving.generateRow (fun _ => .ofSeed 0) ⟨1, none⟩ = .ok row := ⟨_, rfl⟩
  obtain ⟨row, hrow⟩ := hfirst
  obtain ⟨h, hp⟩ := pair_reaches counting 17
  obtain ⟨-, hgivesUp, -, -, hreports, -⟩ := batches_feed_all_or_nothing halving (fun _ => false)
    halvingRows (pair counting) (.ofSeed 0) (fun _ => .ofSeed 0) .alike
  obtain ⟨-, hcancelled, -⟩ := batches_feed_all_or_nothing halving (· == 1) halvingRows (pair counting)
    (.ofSeed 0) (fun _ => .ofSeed 0) .alike
  obtain ⟨-, -, -, hyields, -⟩ := batches_feed_all_or_nothing halving (fun _ => false)
    [⟨1, none⟩, ⟨2, none⟩] (pair counting) (.ofSeed 0) (fun _ => .ofSeed 0) .alike
  have hstops : halving.GivesUp (fun _ => .ofSeed 0) (fun _ => false) halvingRows [⟨1, none⟩]
      ⟨9223372036854775808, none⟩ (.stop (.fault (Bucket.noInteger "id"))) :=
    ⟨⟨_, rfl⟩, ⟨[row], fun _ _ => rfl, .cons hrow .nil⟩, .inr ⟨rfl, _, rfl, rfl⟩⟩
  have hsees : halving.GivesUp (fun _ => .ofSeed 0) (· == 1) halvingRows [⟨1, none⟩]
      ⟨9223372036854775808, none⟩ .cancelled :=
    ⟨⟨_, rfl⟩, ⟨[row], by decide, .cons hrow .nil⟩, .inl ⟨rfl, rfl⟩⟩
  have hcounted : ∃ accs engine, halving.process (fun _ => .ofSeed 0) (fun _ => false)
      [⟨1, none⟩, ⟨2, none⟩] = (.ok accs, engine) := ⟨_, _, rfl⟩
  obtain ⟨accs, engine, hcounted⟩ := hcounted
  refine ⟨(hgivesUp _ _ _ hstops).1, congrArg Prod.snd (hgivesUp _ _ _ hstops).2,
    (hcancelled _ _ _ hsees).1, congrArg Prod.snd (hcancelled _ _ _ hsees).2,
    ⟨accs, engine, hcounted, (hyields accs engine hcounted).1⟩, ?_, ?_⟩
  · exact fun hnil => absurd (congrArg List.length hnil) (by decide)
  · intro id worker results hr
    exact (hreports pairRows h (pairPool counting 17) hp id worker results hr).1

end Coordinator

end SeededRows
