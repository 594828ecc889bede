/-
  SeededRows.Proofs.Coordinator.Lifecycle

  The life of a coordinator. However often and in whatever way it is started, only the first start
  does any work: it leads the coordinator through the phases in their order, and when it returns, be
  it with an error, the coordinator is in the last one. All later starts are refused and touch
  nothing. A fault of the final reduction is returned as it is, after all workers have finished.
-/
import SeededRows.Proofs.Coordinator.CallCounts
import SeededRows.Proofs.Pool.Phases

namespace SeededRows

variable {σ : Type}

/-! ## Phases and endings -/

/-- The phases of a whole run. -/
def Phase.course : List Phase := [.filling, .running, .draining, .terminated]

/-- The phases of a run that was given up before it was drained. -/
def Phase.shortCourse : List Phase := [.filling, .running, .terminated]

/-- The start returned, with results or with an error. -/
def Ending.Returned : Ending → Prop
  | .finished _ | .failed _ => True
  | .crashed _ | .unfinished => False

namespace Coordinator

theorem reduced_injective : Function.Injective reduced := by
  rintro ((f | crash) | results) ((f' | crash') | results') h <;> cases h <;> rfl

/-! ## Starts in a row -/

/-- All that a start depends on, but for the coordinator itself. -/
structure Attempt (σ : Type) where
  ids : Random.Source
  entropy : Entropy
  settle : Pool.Settling σ
  schedule : Nat → Pool.Move
  moves : Nat

/-- Makes an attempt to start a coordinator. -/
def attempt (c : Coordinator σ) (a : Attempt σ) : Run σ :=
  c.startAmid a.ids a.entropy a.settle a.schedule a.moves

/-- The runs that attempts make, each with the coordinator as the one before has left it. -/
def attempts (c : Coordinator σ) : List (Attempt σ) → List (Run σ)
  | [] => []
  | a :: rest => c.attempt a :: (c.attempt a).coordinator.attempts rest

/-- The pool that an attempt leaves. -/
def poolAfter (c : Coordinator σ) (a : Attempt σ) (rows : RowIds.Stream) : Pool σ :=
  (c.pool a.entropy a.settle rows).run (c.setup a.entropy a.settle) a.schedule a.moves 0

variable {c : Coordinator σ} {a : Attempt σ}

/-- Once it has left its first phase, a coordinator refuses to start and stays as it is. -/
theorem eq_refused_of_late (late : c.phase ≠ .filling) (rest : List (Attempt σ)) :
    ∀ run ∈ c.attempts rest,
      run = c.refused (.failed (.fault (.invalidArgument (.alreadyStarted c.phase)))) := by
  induction rest with
  | nil => simp [attempts]
  | cons a rest ih =>
    have hfirst : c.attempt a =
        c.refused (.failed (.fault (.invalidArgument (.alreadyStarted c.phase)))) :=
      (c.startAmid_started a.ids a.entropy a.settle a.schedule a.moves).of_late late
    intro run hrun
    rw [attempts, hfirst] at hrun
    rcases List.mem_cons.mp hrun with rfl | hlater
    · rfl
    · exact ih run hlater

/-! ## The first start -/

/-- There is room for the workers. -/
def HasRoom (c : Coordinator σ) : Prop := c.settings.workers = 1 ∨ fits c.settings.workers = true

/-- All batches of a run were worked through, and this is what their reduction came to. -/
def Concludes (c : Coordinator σ) (a : Attempt σ) (all : List Batch) (run : Run σ)
    (result : Except Stop Results) : Prop :=
  ∃ shares tally, c.Divides a.entropy a.settle all shares tally run ∧
    (Copies.reduce c.configured tally).1 = result

/-- What the first start makes of a coordinator. -/
structure FirstStart (c : Coordinator σ) (a : Attempt σ) (rows : RowIds.Stream) (all : List Batch)
    (run : Run σ) : Prop where
  /-- The phases follow in their order; only one that failed skips the drain. -/
  passed : run.phases <+: Phase.course ∨
    run.phases = Phase.shortCourse ∧ ∃ error, run.ending = .failed error
  last : run.phases.getLast? = some run.coordinator.phase
  untouched : run.coordinator.phase = .filling → run.coordinator = c
  returned : run.ending.Returned → run.coordinator.phase = .terminated
  /-- On the calling thread the drain begins when all batches were worked through. -/
  inline : c.settings.workers = 1 → .draining ∈ run.phases →
    ∃ shares tally, c.Divides a.entropy a.settle all shares tally run
  /-- On a pool it begins when no batch is outstanding and none is to come. -/
  pooled : c.settings.workers ≠ 1 → fits c.settings.workers = true →
    run = c.ofPool (c.poolAfter a rows) ∧ (c.poolAfter a rows).Orderly
  /-- What the final reduction comes to is returned as it is. -/
  reduced : c.HasRoom → ∀ result, run.ending = Coordinator.reduced result ↔
    c.Concludes a all run result
  /-- By then all workers have finished and torn their copies down. -/
  retired : ∀ result, c.Concludes a all run result →
    (∀ copies ∈ run.workerCopies, ∀ copy ∈ copies, copy.calls.head? = some ⟨.done, none⟩) ∧
    (c.settings.workers ≠ 1 →
      ∀ w ∈ (c.poolAfter a rows).workers, w.stage.exit? = some .finished)

variable {rows : RowIds.Stream} {all : List Batch} {run : Run σ}

/-- When all batches were worked through, the last call on every copy was a teardown. -/
theorem Divides.torn {entropy : Entropy} {settle : Pool.Settling σ} {shares : List (List WorkedBatch)}
    {tally : Tally} (h : c.Divides entropy settle all shares tally run) :
    ∀ copies ∈ run.workerCopies, ∀ copy ∈ copies, copy.calls.head? = some ⟨.done, none⟩ := by
  intro copies hcopies copy hcopy
  obtain ⟨worker, hworker⟩ := List.mem_iff_getElem?.mp hcopies
  have hlt : worker < shares.length := h.copied ▸ (List.getElem?_eq_some_iff.mp hworker).1
  obtain ⟨engine, engine', hsame, hsession, hdone⟩ := h.worked (List.getElem?_eq_getElem hlt)
  obtain rfl : copies = engine'.copies := Option.some.inj (hworker.symm.trans hsame)
  obtain ⟨fields, -, -, hretired⟩ := hsession.retired hdone
  obtain ⟨place, hplace⟩ := List.mem_iff_getElem?.mp hcopy
  obtain ⟨given, -, hcopyRetired⟩ := forall₂_getElem? hretired hplace
  exact hcopyRetired.last_call

theorem Concludes.ending {result : Except Stop Results} (h : c.Concludes a all run result) :
    run.ending = Coordinator.reduced result := by
  obtain ⟨shares, tally, hdivides, rfl⟩ := h
  exact hdivides.ending

theorem Concludes.torn {result : Except Stop Results} (h : c.Concludes a all run result) :
    ∀ copies ∈ run.workerCopies, ∀ copy ∈ copies, copy.calls.head? = some ⟨.done, none⟩ := by
  obtain ⟨shares, tally, hdivides, -⟩ := h
  exact hdivides.torn

/-- A run whose batches were all worked through ends as its reduction does. -/
theorem Divides.concludes {shares : List (List WorkedBatch)} {tally : Tally}
    (h : c.Divides a.entropy a.settle all shares tally run) (result : Except Stop Results) :
    run.ending = Coordinator.reduced result ↔ c.Concludes a all run result := by
  refine ⟨fun hending => ⟨shares, tally, h, ?_⟩, Concludes.ending⟩
  exact reduced_injective (h.ending.symm.trans hending)

/-- A run that ends in another way than a reduction can comes to none. -/
theorem concludes_of_ne (h : ∀ result, Coordinator.reduced result ≠ run.ending)
    (result : Except Stop Results) :
    run.ending = Coordinator.reduced result ↔ c.Concludes a all run result :=
  ⟨fun hending => absurd hending.symm (h result), Concludes.ending⟩

/-- A run on the calling thread drains only after its work was finished, and then goes on to the end,
but for a crash of the final reduction. -/
theorem runInline_phases (c : Coordinator σ) (entropy : Entropy) (rows : RowIds.Stream) :
    (∃ tally copies progress,
      Inline.run c.order c.configured entropy (.ofSize rows c.settings.batchSize.toNat)
        (.ofTotal c.settings.rows c.settings.verbose) = (.finished tally, copies, progress) ∧
      ((c.runInline entropy rows).phases = Phase.course ∧
          (c.runInline entropy rows).coordinator.phase = .terminated ∨
        (c.runInline entropy rows).phases = [.filling, .running, .draining] ∧
          (c.runInline entropy rows).coordinator.phase = .draining ∧
          ∃ crash, (c.runInline entropy rows).ending = .crashed crash)) ∨
    (c.runInline entropy rows).phases = Phase.shortCourse ∧
      (c.runInline entropy rows).coordinator.phase = .terminated ∧
      ∃ error, (c.runInline entropy rows).ending = .failed error ∧ ∀ f, error ≠ .fault f := by
  rw [runInline]
  rcases Inline.run c.order c.configured entropy (.ofSize rows c.settings.batchSize.toNat)
    (.ofTotal c.settings.rows c.settings.verbose) with ⟨tally | _ | info, copies, progress⟩
  · refine .inl ⟨tally, copies, progress, rfl, ?_⟩
    dsimp only
    rcases Copies.reduce c.configured tally with ⟨(f | crash) | results, own⟩
    · exact .inl ⟨rfl, rfl⟩
    · exact .inr ⟨rfl, rfl, crash, rfl⟩
    · exact .inl ⟨rfl, rfl⟩
  all_goals
    refine .inr ⟨rfl, rfl, _, rfl, fun f hfault => ?_⟩
    cases hfault

/-- The first start, on the calling thread. -/
theorem runInline_firstStart (hone : c.settings.workers = 1)
    (hload : Pool.Workload (.ofSize rows c.settings.batchSize.toNat) c.settings.workers
      (.ofTotal c.settings.rows c.settings.verbose) all) (hlength : all.length ≤ rows.remaining) :
    c.FirstStart a rows all (c.runInline a.entropy rows) := by
  have hmany {P : Prop} (h : c.settings.workers ≠ 1) : P := absurd hone h
  rcases c.runInline_phases a.entropy rows with
    ⟨tally, copies, progress, hrun, hstands⟩ | ⟨hphases, hphase, error, hending, herror⟩
  · obtain ⟨shares, hdivides⟩ : ∃ shares,
        c.Divides a.entropy a.settle all shares tally (c.runInline a.entropy rows) :=
      runInline_divides_of_finished hone hload hlength hrun
    rcases hstands with ⟨hphases, hphase⟩ | ⟨hphases, hphase, crash, hcrash⟩
    · constructor
      case passed => exact .inl ⟨[], by rw [hphases, List.append_nil]⟩
      case last => rw [hphases, hphase]; rfl
      case untouched => exact fun h => nomatch hphase.symm.trans h
      case returned => exact fun _ => hphase
      case inline => exact fun _ _ => ⟨shares, tally, hdivides⟩
      case pooled => exact fun h _ => hmany h
      case reduced => exact fun _ => hdivides.concludes
      case retired => exact fun _ h => ⟨h.torn, hmany⟩
    · constructor
      case passed => exact .inl ⟨[.terminated], by rw [hphases]; rfl⟩
      case last => rw [hphases, hphase]; rfl
      case untouched => exact fun h => nomatch hphase.symm.trans h
      case returned =>
        intro hreturned
        rw [hcrash] at hreturned
        exact hreturned.elim
      case inline => exact fun _ _ => ⟨shares, tally, hdivides⟩
      case pooled => exact fun h _ => hmany h
      case reduced => exact fun _ => hdivides.concludes
      case retired => exact fun _ h => ⟨h.torn, hmany⟩
  · constructor
    case passed => exact .inr ⟨hphases, error, hending⟩
    case last => rw [hphases, hphase]; rfl
    case untouched => exact fun h => nomatch hphase.symm.trans h
    case returned => exact fun _ => hphase
    case inline =>
      intro _ hdraining
      rw [hphases] at hdraining
      exact absurd hdraining (by decide)
    case pooled => exact fun h _ => hmany h
    case reduced =>
      exact fun _ => concludes_of_ne fun result => hending.symm ▸ reduced_ne_failed result herror
    case retired => exact fun _ h => ⟨h.torn, hmany⟩

/-- The run of a pool goes through the phases of the pool. -/
theorem phases_ofPool {p : Pool σ} (hp : p.Staged) :
    ((c.ofPool p).phases <+: Phase.course ∨ (c.ofPool p).phases = Phase.shortCourse ∧
      ∃ error, (c.ofPool p).ending = .failed error) ∧
    (c.ofPool p).phases.getLast? = some (c.ofPool p).coordinator.phase ∧
    (c.ofPool p).coordinator.phase ≠ .filling := by
  have hphases : (c.ofPool p).phases = p.passed.reverse ++ [p.phase] := List.reverse_cons
  have hphase : (c.ofPool p).coordinator.phase = p.phase := rfl
  rw [hphases, hphase]
  cases hp with
  | running phase passed =>
    rw [phase, passed]
    exact ⟨.inl ⟨[.draining, .terminated], rfl⟩, rfl, nofun⟩
  | draining phase passed =>
    rw [phase, passed]
    exact ⟨.inl ⟨[.terminated], rfl⟩, rfl, nofun⟩
  | drained phase passed =>
    rw [phase, passed]
    exact ⟨.inl ⟨[], rfl⟩, rfl, nofun⟩
  | givenUp phase passed returned =>
    obtain ⟨error, hc⟩ := returned
    rw [phase, passed]
    refine ⟨.inr ⟨rfl, error, ?_⟩, rfl, nofun⟩
    rw [ending_ofPool, Pool.outcome?, hc]

/-- A final reduction on a pool is made after the coordinator of the pool has returned without an
error. -/
theorem returned_of_reduced {entropy : Entropy} {settle : Pool.Settling σ} {h : Pool.History σ}
    {p : Pool σ} (hload : Pool.Workload (.ofSize rows c.settings.batchSize.toNat) c.settings.workers
      (.ofTotal c.settings.rows c.settings.verbose) all)
    (hp : Pool.Reaches (c.setup entropy settle) (c.pool entropy settle rows) h p)
    {result : Except Stop Results} (hreduced : (c.ofPool p).ending = Coordinator.reduced result) :
    p.control = .returned (.ok ()) := by
  by_contra hc
  have hbreaks := ofPool_breaks hload hp hc
  have hending := ending_ofPool c p
  cases ho : p.outcome? with
  | none =>
    rw [ho] at hending
    exact reduced_ne_unfinished result (hreduced.symm.trans hending)
  | some outcome =>
    rw [ho] at hending
    rcases outcome with error | ⟨⟩
    · refine reduced_ne_failed result ?_ (hreduced.symm.trans hending)
      rintro f rfl
      exact hbreaks.faultless f hending
    · exact hc (Pool.control_of_outcome ho)

/-- The first start, on a pool. -/
theorem ofPool_firstStart (hmany : c.settings.workers ≠ 1)
    (hload : Pool.Workload (.ofSize rows c.settings.batchSize.toNat) c.settings.workers
      (.ofTotal c.settings.rows c.settings.verbose) all) :
    c.FirstStart a rows all (c.ofPool (c.poolAfter a rows)) := by
  obtain ⟨h, hp⟩ : ∃ h, Pool.Reaches (c.setup a.entropy a.settle) (c.pool a.entropy a.settle rows) h
      (c.poolAfter a rows) := Pool.Reaches.start.run a.schedule a.moves 0
  obtain ⟨hpassed, hlast, hphase⟩ := phases_ofPool (c := c) (hp.staged hload)
  have horderly := hp.orderly hload
  constructor
  case passed => exact hpassed
  case last => exact hlast
  case untouched => exact fun h => absurd h hphase
  case returned =>
    intro hreturned
    refine (horderly.returned fun hnone => ?_).1
    rw [ending_ofPool, hnone] at hreturned
    exact hreturned
  case inline => exact fun hone => absurd hone hmany
  case pooled => exact fun _ _ => ⟨rfl, horderly⟩
  case reduced =>
    refine fun _ result => ⟨fun hending => ?_, Concludes.ending⟩
    obtain ⟨shares, hdivides⟩ :=
      ofPool_divides hmany hload hp (returned_of_reduced hload hp hending)
    exact (hdivides.concludes result).mp hending
  case retired =>
    intro result hconcludes
    have hc := returned_of_reduced hload hp hconcludes.ending
    exact ⟨hconcludes.torn, fun _ => horderly.joined (by rw [Pool.outcome?, hc])⟩

/-- The first start, when there is no room for the workers. -/
theorem refused_firstStart (hnew : c.phase = .filling) (hsome : 0 < c.settings.workers)
    (hmany : c.settings.workers ≠ 1) (hfull : fits c.settings.workers = false) (crash : Crash) :
    c.FirstStart a rows all (c.refused (.crashed crash)) := by
  have hroom {P : Prop} (h : fits c.settings.workers = true) : P := nomatch hfull.symm.trans h
  have hphases : (c.refused (.crashed crash)).phases = [.filling] := congrArg (fun p => [p]) hnew
  constructor
  case passed => exact .inl ⟨[.running, .draining, .terminated], by rw [hphases]; rfl⟩
  case last => rfl
  case untouched => exact fun _ => rfl
  case returned => exact False.elim
  case inline => exact fun hone => absurd hone hmany
  case pooled => exact fun _ h => hroom h
  case reduced => exact fun h => h.elim (absurd · hmany) hroom
  case retired =>
    -- no worker had a share of the batches
    rintro result ⟨shares, tally, hdivides, -⟩
    have hnobody : 0 = c.settings.workers := hdivides.copied.trans hdivides.staffed
    exact absurd hnobody (Nat.ne_of_lt hsome)

variable {settings : Settings} {order : FieldOrder} {configured : List (Copy σ)}

/-- The first start of an accepted coordinator. -/
theorem attempt_firstStart (hc : ofSettings settings order configured = .ok c)
    (hrows : settings.rowStream a.ids = .ok rows)
    (hload : Pool.Workload (.ofSize rows settings.batchSize.toNat) settings.workers
      (.ofTotal settings.rows settings.verbose) all) (hflat : all.flatMap Batch.rows = rows.toList) :
    c.FirstStart a rows all (c.attempt a) := by
  obtain ⟨hvalid, -, rfl⟩ := ofSettings_eq_ok hc
  rw [attempt, startAmid, if_pos rfl]
  dsimp only
  rw [hrows]
  dsimp only
  by_cases hone : settings.workers = 1
  · obtain ⟨hsound, -⟩ := RowIds.Plan.stream_sound hrows
    have hlength := length_le_rows hload.nonempty
    rw [hflat, hsound.length_toList] at hlength
    rw [if_pos hone]
    exact runInline_firstStart hone hload hlength
  · rw [if_neg hone, runPool]
    cases hfits : fits settings.workers with
    | true => exact ofPool_firstStart hone hload
    | false => exact refused_firstStart rfl (workers_pos hvalid) hone hfits _

theorem exists_firstStart (hc : ofSettings settings order configured = .ok c) (a : Attempt σ) :
    ∃ rows all, settings.rowStream a.ids = .ok rows ∧
      (Batches.ofSize rows settings.batchSize.toNat).Gives all ∧
      all.flatMap Batch.rows = rows.toList ∧ c.FirstStart a rows all (c.attempt a) := by
  obtain ⟨rows, all, hrows, -, hload, hflat, -, -⟩ := workload_of_accepted hc a.ids
  exact ⟨rows, all, hrows, hload.gives, hflat, attempt_firstStart hc hrows hload hflat⟩

/-! ## All starts -/

/-- A start that takes a coordinator forward. -/
structure Advances (c : Coordinator σ) (run : Run σ) : Prop where
  ascends : run.phases.Pairwise fun p q => p.rank ≤ q.rank
  least : ∀ phase ∈ run.phases, c.phase.rank ≤ phase.rank
  last : run.phases.getLast? = some run.coordinator.phase

/-- Phases that ascend do not go beyond the last one. -/
theorem Advances.greatest (h : c.Advances run) :
    ∀ phase ∈ run.phases, phase.rank ≤ run.coordinator.phase.rank := by
  obtain ⟨before, hphases⟩ := List.getLast?_eq_some_iff.mp h.last
  have hascends := h.ascends
  rw [hphases] at hascends ⊢
  intro phase hphase
  rcases List.mem_append.mp hphase with hbefore | hself
  · exact (List.pairwise_append.mp hascends).2.2 phase hbefore _ List.mem_cons_self
  · rw [List.mem_singleton.mp hself]

theorem Advances.rank_le (h : c.Advances run) : c.phase.rank ≤ run.coordinator.phase.rank :=
  h.least _ (List.mem_of_getLast? h.last)

theorem advances_refused (c : Coordinator σ) (ending : Ending) : c.Advances (c.refused ending) where
  ascends := List.pairwise_singleton _ _
  least _ hphase := (List.mem_singleton.mp hphase).symm ▸ Nat.le_refl _
  last := rfl

theorem FirstStart.advances (h : c.FirstStart a rows all run) (hnew : c.phase = .filling) :
    c.Advances run where
  ascends := by
    rcases h.passed with hcourse | ⟨hshort, -⟩
    · have hascends : Phase.course.Pairwise fun p q => p.rank ≤ q.rank := by decide
      exact hascends.sublist hcourse.sublist
    · rw [hshort]
      decide
  least _ _ := hnew.symm ▸ Nat.zero_le _
  last := h.last

/-- Over all starts, a coordinator is taken forward. -/
theorem attempts_ascend (hc : c.phase ≠ .filling ∨ ofSettings settings order configured = .ok c)
    (list : List (Attempt σ)) :
    ((c.attempts list).flatMap Run.phases).Pairwise (fun p q => p.rank ≤ q.rank) ∧
      ∀ phase ∈ (c.attempts list).flatMap Run.phases, c.phase.rank ≤ phase.rank := by
  induction list generalizing c with
  | nil => exact ⟨.nil, nofun⟩
  | cons a rest ih =>
    -- afterwards the coordinator is past its first phase, or as it was
    obtain ⟨hadvances, hnext⟩ : c.Advances (c.attempt a) ∧
        ((c.attempt a).coordinator.phase ≠ .filling ∨
          ofSettings settings order configured = .ok (c.attempt a).coordinator) := by
      rcases hc with hlate | haccepted
      · rw [eq_refused_of_late hlate [a] _ List.mem_cons_self]
        exact ⟨advances_refused c _, .inl hlate⟩
      · obtain ⟨rows, all, -, -, -, hfirst⟩ := exists_firstStart haccepted a
        obtain ⟨-, -, hnew⟩ := ofSettings_eq_ok haccepted
        refine ⟨hfirst.advances (by rw [hnew]), ?_⟩
        by_cases hphase : (c.attempt a).coordinator.phase = .filling
        · rw [hfirst.untouched hphase]
          exact .inr haccepted
        · exact .inl hphase
    obtain ⟨hascends, hleast⟩ := ih hnext
    rw [attempts, List.flatMap_cons]
    refine ⟨List.pairwise_append.mpr ⟨hadvances.ascends, hascends, ?_⟩, ?_⟩
    · intro p hp q hq
      exact Nat.le_trans (hadvances.greatest p hp) (hleast q hq)
    · intro phase hphase
      rcases List.mem_append.mp hphase with hfirst | hlater
      · exact hadvances.least phase hfirst
      · exact Nat.le_trans hadvances.rank_le (hleast phase hlater)

/-- A coordinator is started once. Over any starts its phases only ever ascend, and what the first
one makes of it is told by `FirstStart`: it ends in the last phase when it returns, it does not
drain while a batch is outstanding or still to come, and a fault of its final reduction comes back
unchanged. Once it has left its first phase, every start fails with the word that it was started
already, no worker gets copies of its aggregators and the coordinator stays as it is, its own copies
included. -/
theorem started_once (hc : ofSettings settings order configured = .ok c) (first : Attempt σ)
    (rest : List (Attempt σ)) {run : Run σ} (hrun : c.attempt first = run) :
    ((c.attempts (first :: rest)).flatMap Run.phases).Pairwise (fun p q => p.rank ≤ q.rank) ∧
    (∃ rows all, settings.rowStream first.ids = .ok rows ∧
      (Batches.ofSize rows settings.batchSize.toNat).Gives all ∧
      all.flatMap Batch.rows = rows.toList ∧ c.FirstStart first rows all run) ∧
    (run.coordinator.phase ≠ .filling → ∀ later ∈ run.coordinator.attempts rest,
      later.ending =
        .failed (.fault (.invalidArgument (.alreadyStarted run.coordinator.phase))) ∧
      later.coordinator = run.coordinator ∧ later.workerCopies = []) := by
  subst hrun
  refine ⟨(attempts_ascend (.inr hc) _).1, exists_firstStart hc first, ?_⟩
  intro hlate later hlater
  rw [eq_refused_of_late hlate rest later hlater]
  exact ⟨rfl, rfl, rfl⟩

/-- Copies of a counter that cannot add counts up. -/
def unreducing : List (Copy Unit) :=
  [.fresh { Aggregator.count Unit with
    reduce := fun _ _ => Hook.fail (.aggregator "row_counter" "no") } ()]

/-- A coordinator of two workers that count three rows, each in a batch of its own, and do not get
as far as adding them up. -/
def unreducingTrio : Coordinator Unit :=
  ⟨{ trioSettings with batchSize := 1 }, .empty, unreducing, .filling⟩

/-- An attempt in which everything moves in rounds. -/
def trioAttempt : Attempt Unit := ⟨.ofSeed 0, fun _ => .ofSeed 0, .alike, Pool.rounds 2, 64⟩

/-- The three counts cannot be added up in the end: the fault is returned as it is, after both workers
have torn their copies down, and a second start is refused. -/
theorem started_once_unreducing : ∃ run, unreducingTrio.attempt trioAttempt = run ∧
    run.ending = .failed (.fault (.aggregator "row_counter" "no")) ∧
    run.coordinator.phase = .terminated ∧ run.workerCopies.map List.length = [1, 1] ∧
    (∀ copies ∈ run.workerCopies, ∀ copy ∈ copies, copy.calls.head? = some ⟨.done, none⟩) ∧
    ∃ later ∈ run.coordinator.attempts [trioAttempt], later.ending =
        .failed (.fault (.invalidArgument (.alreadyStarted .terminated))) ∧
      later.coordinator = run.coordinator ∧ later.workerCopies = [] := by
  have hc : ofSettings unreducingTrio.settings .empty unreducing = .ok unreducingTrio := rfl
  have hends : (match (unreducingTrio.attempt trioAttempt).ending with
      | .failed (.fault (.aggregator name message)) => name == "row_counter" && message == "no"
      | _ => false) = true := by decide +kernel
  have hworkers : (unreducingTrio.attempt trioAttempt).workerCopies.map List.length = [1, 1] := by
    decide +kernel
  obtain ⟨run, hrun⟩ : ∃ run, unreducingTrio.attempt trioAttempt = run := ⟨_, rfl⟩
  obtain ⟨-, ⟨rows, all, -, -, -, hfirst⟩, hlater⟩ :=
    started_once hc trioAttempt [trioAttempt] hrun
  rw [hrun] at hends hworkers
  have hending : run.ending = .failed (.fault (.aggregator "row_counter" "no")) := by
    split at hends
    · rename_i name message hending
      obtain ⟨hname, hmessage⟩ := Bool.and_eq_true_iff.mp hends
      rw [hending, eq_of_beq hname, eq_of_beq hmessage]
    · cases hends
  have hphase : run.coordinator.phase = .terminated := hfirst.returned (by rw [hending]; trivial)
  have hconcludes := (hfirst.reduced (.inr rfl) (.error (.fault _))).mp hending
  rw [hphase] at hlater
  exact ⟨run, hrun, hending, hphase, hworkers, (hfirst.retired _ hconcludes).1, _,
    List.mem_cons_self, hlater (by decide) _ List.mem_cons_self⟩

end Coordinator

end SeededRows
