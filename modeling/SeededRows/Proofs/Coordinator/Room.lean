/-
  SeededRows.Proofs.Coordinator.Room

  The room that a pool needs before its first move: an entry for each of its workers, and four
  batches for each of them to begin with. The checks of the settings refuse no number of workers but
  zero, so it is only when a pool is set up that a number turns out to be too large. Up to the
  largest number for which there is room every count is exact, the pool stands as it should, and it
  agrees with the run on the calling thread; beyond it the start crashes, on the calling thread,
  before anything is done, where a run without a pool would have gone well.
-/
import SeededRows.Proofs.Coordinator.Agreement
import SeededRows.Proofs.Coordinator.Validation
import SeededRows.Proofs.Pool.Start

namespace SeededRows

open Pool (queuedPerWorker)

variable {σ : Type}

/-! ## Settings with other numbers of workers -/

namespace Settings

end Settings

namespace Coordinator

/-- The most workers that there is room for: as many entries as make up half of all addresses. -/
def mostWorkers : Nat := 384307168202282325

/-- What a pool is set up with: the entries of its workers take up no more bytes than can be asked for
at once, and its first batches can be counted by a word. -/
structure RoomFor (workers : Nat) : Prop where
  entries : (handleSize * workers : Int) ≤ Int64.maxValue.toInt
  queued : queuedPerWorker * workers < UInt64.size

theorem roomFor_iff {workers : Nat} : RoomFor workers ↔ workers ≤ mostWorkers := by
  have hmost : Int64.maxValue.toInt = 9223372036854775807 := by decide
  have hsize : UInt64.size = 18446744073709551616 := rfl
  constructor
  -- the entries run out first: the batches of about twelve times as many workers could still be counted
  · rintro ⟨hentries, -⟩
    simp only [handleSize, mostWorkers] at hentries ⊢
    omega
  · intro h
    rw [mostWorkers] at h
    constructor
    · simp only [handleSize]
      omega
    · simp only [queuedPerWorker]
      omega

example : mostWorkers = Int64.maxValue.toInt.toNat / handleSize := by decide

/-- A pool is set up exactly where there is room for it. -/
theorem fits_iff {workers : Nat} : fits workers = true ↔ RoomFor workers := by
  have hsize : UInt64.size = 18446744073709551616 := rfl
  rw [roomFor_iff, fits, Bool.and_eq_true, decide_eq_true_iff, decide_eq_true_iff, handleSize,
    queuedPerWorker, mostWorkers]
  omega

/-- A pool as it stands before its first move: with all its workers, none of which has begun, and with
the first batches in its queue, as many as were counted or all that there are. -/
structure SetUp (c : Coordinator σ) (all : List Batch) (p : Pool σ) : Prop where
  staff : p.workers = List.replicate c.settings.workers .fresh
  queued : p.tasks = (all.take (queuedPerWorker * c.settings.workers)).map .batch
  rest : p.rest.Gives (all.drop (queuedPerWorker * c.settings.workers))
  tasksOpen : p.tasksOpen = true

variable {settings : Settings} {order : FieldOrder} {configured : List (Copy σ)} {c : Coordinator σ}

/-- A new coordinator of more than one worker runs on a pool, if its rows can be laid out. -/
theorem startAmid_of_many {ids : Random.Source} {entropy : Entropy} {settle : Pool.Settling σ}
    {schedule : Nat → Pool.Move} {moves : Nat} {rows : RowIds.Stream} (hnew : c.phase = .filling)
    (hrows : c.settings.rowStream ids = .ok rows) (hmany : c.settings.workers ≠ 1) :
    c.startAmid ids entropy settle schedule moves =
      c.runPool entropy settle schedule moves rows := by
  rw [startAmid, if_pos hnew, hrows]
  exact if_neg hmany

/-- Where there is no room for the workers of an accepted coordinator, every start crashes before
anything is done. -/
theorem startAmid_of_crowded (hc : ofSettings settings order configured = .ok c)
    (hmany : 2 ≤ settings.workers) (hroom : ¬ RoomFor settings.workers) (ids : Random.Source)
    (entropy : Entropy) (settle : Pool.Settling σ) (schedule : Nat → Pool.Move) (moves : Nat) :
    c.startAmid ids entropy settle schedule moves =
      c.refused (.crashed ⟨some "capacity overflow"⟩) := by
  obtain ⟨hvalid, -, rfl⟩ := ofSettings_eq_ok hc
  obtain ⟨rows, hrows⟩ := rowStream_of_validate hvalid ids
  have hpool : settings.workers ≠ 1 := Nat.ne_of_gt hmany
  rw [startAmid_of_many rfl hrows hpool, runPool, if_neg (mt fits_iff.mp hroom)]

theorem ending_of_crowded (hc : ofSettings settings order configured = .ok c)
    (hmany : 2 ≤ settings.workers) (hroom : ¬ RoomFor settings.workers) (ids : Random.Source)
    (entropy : Entropy) (settle : Pool.Settling σ) (schedule : Nat → Pool.Move) (moves : Nat) :
    (c.startAmid ids entropy settle schedule moves).ending =
      .crashed ⟨some "capacity overflow"⟩ := by
  rw [startAmid_of_crowded hc hmany hroom]
  rfl

/-- A run of described aggregators with a seed and at least two workers, as far as there is room for
them, ends well exactly when the run on the calling thread does, if it comes to an end, and then with
the same results, place by place. It does not matter in which order workers and coordinator move, how
large the batches of either run are, nor what entropy is around. Where there is no room every run of
the pool crashes, whatever the calling thread would do. In every schedule that gives everybody a turn
again and again, the run comes to an end. The files of the aggregators can be opened. -/
theorem pool_agrees_with_inline {disk : Disk} {specs : List AggregatorSpec} {seed : Int64}
    {k b b' : UInt64} {pooled inline : Coordinator CsvFiles}
    (hseed : settings.randomSeed = some seed) (hk : 2 ≤ k.toNat)
    (hpooled : ofSettings { settings with numProcesses := k, batchSize := b } order
      (AggregatorSpec.configuredAll disk specs) = .ok pooled)
    (hinline : ofSettings { settings with numProcesses := 1, batchSize := b' } order
      (AggregatorSpec.configuredAll disk specs) = .ok inline)
    (hfiles : ∀ copy ∈ AggregatorSpec.configuredAll disk specs, copy.clone.start.1 = .ok ())
    (ids ids' : Random.Source) (entropy entropy' : Entropy) (schedule : Nat → Pool.Move) :
    (k.toNat ≤ mostWorkers → ∀ moves,
      (pooled.startWith ids entropy schedule moves).ending ≠ .unfinished →
      ∀ results, (pooled.startWith ids entropy schedule moves).ending = .finished results ↔
        (inline.start ids' entropy').ending = .finished results) ∧
    (mostWorkers < k.toNat → ∀ moves, (pooled.startWith ids entropy schedule moves).ending =
      .crashed ⟨some "capacity overflow"⟩) ∧
    (Pool.Fair k.toNat schedule → ∃ moves, ∀ more, moves ≤ more →
      (pooled.startWith ids entropy schedule more).ending ≠ .unfinished) := by
  refine ⟨?_, ?_, ?_⟩
  · intro hroom moves hends
    exact pool_finished_iff (AggregatorSpec.configuredAll_isOf disk specs) hfiles (by simp [hseed]) hk
      (fits_iff.mpr (roomFor_iff.mpr hroom)) hpooled hinline ids ids' entropy entropy' schedule moves
      hends
  · intro hcrowded
    have hroom : ¬ RoomFor k.toNat := mt roomFor_iff.mp (Nat.not_le_of_gt hcrowded)
    exact ending_of_crowded hpooled hk hroom ids entropy .alike schedule
  · exact startWith_ends hpooled hk

/-- A coordinator that counts one row, with some workers and batches of some size. -/
def counter (workers batch : UInt64) : Coordinator CsvFiles :=
  ⟨{ pairSettings with numProcesses := workers, batchSize := batch }, .empty,
    AggregatorSpec.configuredAll [] [.count], .filling⟩

/-- So many workers that there is no room for them, although the batches queued for them could be
counted. -/
def crowdedWorkers : UInt64 := 2305843009213693952

/-- Two workers count one row, and so does the calling thread; a crowd of them crashes. -/
theorem pool_agrees_with_inline_counter :
    ((counter 2 1).startWith (.ofSeed 0) (fun _ => .ofSeed 0) (Pool.rounds 2) 47).ending =
        .finished [("row_counter", ⟨.count, (1 : Nat)⟩)] ∧
      ((counter 1 3).start (.ofSeed 5) fun _ => .ofSeed 6).ending =
        .finished [("row_counter", ⟨.count, (1 : Nat)⟩)] ∧
      (∃ moves, ∀ more, moves ≤ more → ((counter 2 1).startWith (.ofSeed 0) (fun _ => .ofSeed 0)
        (Pool.rounds 2) more).ending ≠ .unfinished) ∧
      ∀ moves, ((counter crowdedWorkers 1).startWith (.ofSeed 0) (fun _ => .ofSeed 0)
        (Pool.rounds 2) moves).ending = .crashed ⟨some "capacity overflow"⟩ := by
  have hpooled : ((counter 2 1).startWith (.ofSeed 0) (fun _ => .ofSeed 0) (Pool.rounds 2) 47).ending =
      .finished [("row_counter", ⟨.count, (1 : Nat)⟩)] := rfl
  have hseed : pairSettings.randomSeed = some 1 := rfl
  have hpair : ofSettings { pairSettings with numProcesses := 2, batchSize := 1 } .empty
      (AggregatorSpec.configuredAll [] [.count]) = .ok (counter 2 1) := rfl
  have hcrowd : ofSettings { pairSettings with numProcesses := crowdedWorkers, batchSize := 1 } .empty
      (AggregatorSpec.configuredAll [] [.count]) = .ok (counter crowdedWorkers 1) := rfl
  have hone : ofSettings { pairSettings with numProcesses := 1, batchSize := 3 } .empty
      (AggregatorSpec.configuredAll [] [.count]) = .ok (counter 1 3) := rfl
  have hfiles : ∀ copy ∈ AggregatorSpec.configuredAll [] [.count], copy.clone.start.1 = .ok () := by
    intro copy hcopy
    rw [List.mem_singleton.mp hcopy]
    rfl
  obtain ⟨hagree, -, hends⟩ := pool_agrees_with_inline hseed (by decide) hpair hone hfiles
    (.ofSeed 0) (.ofSeed 5) (fun _ => .ofSeed 0) (fun _ => .ofSeed 6) (Pool.rounds 2)
  obtain ⟨-, hcrashes, -⟩ := pool_agrees_with_inline hseed (by decide) hcrowd hone hfiles
    (.ofSeed 0) (.ofSeed 5) (fun _ => .ofSeed 0) (fun _ => .ofSeed 6) (Pool.rounds 2)
  refine ⟨hpooled, (hagree (by decide) 47 ?_ _).mp hpooled, hends (Pool.rounds_fair 2),
    hcrashes (by decide)⟩
  rw [hpooled]
  exact fun h => nomatch h

/-- The calling thread counts one row, but the same settings with a crowd of workers, which are
accepted too and whose first batches can be counted, never come to a result: every run of their pool
crashes. -/
theorem crowd_disagrees : queuedPerWorker * crowdedWorkers.toNat < UInt64.size ∧
    ofSettings { pairSettings with numProcesses := crowdedWorkers, batchSize := 1 } .empty
      (AggregatorSpec.configuredAll [] [.count]) = .ok (counter crowdedWorkers 1) ∧
    ofSettings { pairSettings with numProcesses := 1, batchSize := 1 } .empty
      (AggregatorSpec.configuredAll [] [.count]) = .ok (counter 1 1) ∧
    ((counter 1 1).start (.ofSeed 0) fun _ => .ofSeed 0).ending =
      .finished [("row_counter", ⟨.count, (1 : Nat)⟩)] ∧
    ∀ (ids : Random.Source) (entropy : Entropy) schedule moves,
      ((counter crowdedWorkers 1).startWith ids entropy schedule moves).ending =
        .crashed ⟨some "capacity overflow"⟩ := by
  have haccepted : ofSettings { pairSettings with numProcesses := crowdedWorkers, batchSize := 1 } .empty
      (AggregatorSpec.configuredAll [] [.count]) = .ok (counter crowdedWorkers 1) := rfl
  refine ⟨by decide, haccepted, rfl, rfl, ?_⟩
  have hroom : ¬ RoomFor crowdedWorkers.toNat := mt roomFor_iff.mp (by decide)
  exact fun ids entropy => ending_of_crowded haccepted (by decide) hroom ids entropy .alike

end Coordinator

end SeededRows
