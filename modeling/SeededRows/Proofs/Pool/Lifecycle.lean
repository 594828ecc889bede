/-
  SeededRows.Proofs.Pool.Lifecycle

  The lives of the copies of a worker. From the moment it has made its engine a worker owes its
  copies a teardown; it tears them down when no more batches follow, and after a failure, but not
  when it finds the run cancelled. So when a run has come to an end, the copies of all workers are
  torn down once, but those of workers that were cancelled are in use for ever.
-/
import SeededRows.Proofs.Engine.Lifecycle
import SeededRows.Proofs.Pool.Failures
import SeededRows.Proofs.Pool.Custody

namespace SeededRows

/-- Copies are in use until they are torn down, which only a crash prevents. -/
theorem Engine.respects_teardown {σ : Type} :
    Engine.Respects (σ := σ) Copies.InUse
      fun copies => Copies.TornDown copies ∨ Copies.Crashed copies where
  made := inUse_of_start
  unmade := tornDown_of_start
  working entropy cancelled specs h := inUse_process h entropy cancelled specs
  torn := tornDown_done

namespace Pool

variable {σ : Type} {setup : Setup σ} {p q : Pool σ} {batches : Batches RowIds.Stream}
  {workers : Nat} {progress : Progress} {h : History σ}

/-! ## One worker -/

namespace Worker

variable {w : Worker σ}

/-- All copies are in use, and a teardown of them will be made. -/
structure Owes (w : Worker σ) : Prop where
  inUse : Copies.InUse w.copies
  engine : w.engine.isSome = true
  waiting : w.doneAttempted = false

/-- There is nothing more to be torn down, or a crash kept it from being torn down. -/
structure Settled (w : Worker σ) : Prop where
  tornDown : Copies.TornDown w.copies ∨ Copies.Crashed w.copies
  tried : w.engine = none ∨ w.doneAttempted = true

/-- What holds of the copies of a worker in each stage. -/
def Tended (w : Worker σ) : Prop :=
  match w.stage with
  | .spawned => w.engine = none ∧ w.doneAttempted = false
  | .failing .. | .cleaning _ => w.Owes ∨ w.Settled
  | .leaving | .exited .finished _ | .exited .failed _ => w.Settled
  | .exited .cancelled _ => Copies.InUse w.copies
  | .waiting | .receiving | .took _ | .working _ | .finishing => w.Owes

theorem tended_of_respects
    (h : w.Respects Copies.InUse fun copies => Copies.TornDown copies ∨ Copies.Crashed copies) :
    w.Tended := by
  have howes (h : w.Holds Copies.InUse) : w.Owes := ⟨h.copies, h.engine, h.untried⟩
  have hsettled (h : w.Released fun copies => Copies.TornDown copies ∨ Copies.Crashed copies) :
      w.Settled := ⟨h.copies, h.tried⟩
  rw [Respects] at h
  rw [Tended]
  cases hs : w.stage with
  | spawned =>
    rw [hs] at h
    exact ⟨h.1, h.2.2⟩
  | waiting | receiving | took | working | finishing =>
    rw [hs] at h
    exact howes h
  | failing | cleaning =>
    rw [hs] at h
    exact h.imp howes hsettled
  | leaving =>
    rw [hs] at h
    exact hsettled h
  | exited exit held =>
    rw [hs] at h
    cases exit with
    | finished | failed => exact hsettled h
    | cancelled => exact h

end Worker

/-! ## All workers -/

theorem Reaches.tended (hp : Reaches setup (ofBatches setup batches workers progress) h p) :
    ∀ {id : Nat} {w : Worker σ}, p.workers[id]? = some w → w.Tended :=
  fun hw => Worker.tended_of_respects (hp.respects Engine.respects_teardown hw)

end Pool

/-! ## Runs -/

/-- A run on the calling thread tears the copies down whether or not it goes well. -/
theorem Inline.run_settles {σ : Type} (order : FieldOrder) (configured : List (Copy σ))
    (entropy : Entropy) (batches : Batches RowIds.Stream) (progress : Progress) :
    Copies.TornDown (run order configured entropy batches progress).2.1 ∨
      Copies.Crashed (run order configured entropy batches progress).2.1 :=
  run_spent Engine.respects_teardown order configured entropy batches progress

namespace Coordinator

variable {σ : Type}

theorem workerCopies_runInline (c : Coordinator σ) (entropy : Entropy) (rows : RowIds.Stream) :
    (c.runInline entropy rows).workerCopies = [(Inline.run c.order c.configured entropy
      (.ofSize rows c.settings.batchSize.toNat)
      (.ofTotal c.settings.rows c.settings.verbose)).2.1] := by
  rw [runInline]
  rcases Inline.run c.order c.configured entropy (.ofSize rows c.settings.batchSize.toNat)
    (.ofTotal c.settings.rows c.settings.verbose) with ⟨tally | _ | info, copies, progress⟩
  · simp only
    rcases Copies.reduce c.configured tally with ⟨(f | crash) | results, configured⟩ <;> rfl
  · rfl
  · rfl

/-- When a run has come to an end, every copy that was set up was torn down, once, provided that no
setup and no teardown crashed: in a run on the calling thread, whether or not it went well, and
on a pool for every worker that finished or failed. A worker that was cancelled, because another
one failed, has set all its copies up and torn none of them down. -/
theorem copies_torn_down (c : Coordinator σ) (entropy : Entropy) (rows : RowIds.Stream) :
    (∀ copies ∈ (c.runInline entropy rows).workerCopies, ¬ Copies.Crashed copies →
      Copies.TornDown copies) ∧
    ∀ settle h p, Pool.Reaches (c.setup entropy settle) (c.pool entropy settle rows) h p →
      p.outcome? ≠ none → ∀ w ∈ p.workers, ∃ exit, w.stage.exit? = some exit ∧
        (exit ≠ .cancelled → ¬ Copies.Crashed w.copies → Copies.TornDown w.copies) ∧
        (exit = .cancelled → Copies.InUse w.copies ∧
          ∃ error, (c.ofPool p).ending = .failed error) := by
  refine ⟨?_, ?_⟩
  · intro copies hcopies hcrash
    rw [workerCopies_runInline, List.mem_singleton] at hcopies
    subst hcopies
    exact (Inline.run_settles c.order c.configured entropy _ _).resolve_right hcrash
  · intro settle h p hp hreturned w hw
    obtain ⟨id, hid⟩ := List.mem_iff_getElem?.mp hw
    have htended := hp.tended hid
    have hall := hp.returned_exited Pool.ofBatches_outcome hreturned
    have hexited := List.all_eq_true.mp hall w hw
    obtain ⟨exit, hexit⟩ := Option.isSome_iff_exists.mp hexited
    obtain ⟨held, hstage⟩ := Pool.Stage.exit?_eq_some hexit
    refine ⟨exit, hexit, ?_, ?_⟩
    · intro hnot hcrash
      have hsettled : w.Settled := by
        cases exit with
        | cancelled => exact absurd rfl hnot
        | finished | failed => simpa only [Pool.Worker.Tended, hstage] using htended
      exact hsettled.tornDown.resolve_right hcrash
    · rintro rfl
      refine ⟨by simpa only [Pool.Worker.Tended, hstage] using htended, ?_⟩
      -- in a run that went well every worker ended otherwise
      obtain ⟨outcome, ho⟩ := Option.ne_none_iff_exists'.mp hreturned
      rw [ending_ofPool, ho]
      rcases outcome with error | ⟨⟩
      · exact ⟨error, rfl⟩
      · have hended := hp.returned_ended (Pool.control_of_outcome ho) hid
        rw [hstage] at hended
        exact hended.elim

/-- Copies of a counter that cannot count any row. -/
def refusing : List (Copy Unit) :=
  [.fresh { Aggregator.count Unit with map := fun _ => Hook.fail (.aggregator "row_counter" "no") } ()]

/-- The calls on the copies of a pair of workers that cannot count their row. -/
theorem refusing_calls : ((pairPool refusing 60).workers.map Pool.Worker.copies).map
    (fun copies => copies.map fun c => c.calls) =
      [[[⟨.done, none⟩, ⟨.map, some (.fault (.aggregator "row_counter" "no"))⟩, ⟨.start, none⟩]],
        [[⟨.start, none⟩]]] := rfl

theorem refusing_not_crashed : ∀ copies ∈ (pairPool refusing 60).workers.map Pool.Worker.copies,
    ¬ Copies.Crashed copies := by
  rintro copies hcopies ⟨c, hc, call, hcall, -, crash, hcrash⟩
  have hlists := List.mem_map_of_mem (f := fun copies => copies.map fun c => c.calls) hcopies
  have hcalls := List.mem_map_of_mem (f := fun c => c.calls) hc
  rw [refusing_calls] at hlists
  simp only [List.mem_cons, List.not_mem_nil, or_false] at hlists
  rcases hlists with hfailed | hcancelled
  · rw [hfailed, List.mem_singleton] at hcalls
    rw [hcalls] at hcall
    simp only [List.mem_cons, List.not_mem_nil, or_false] at hcall
    rcases hcall with rfl | rfl | rfl <;> cases hcrash
  · rw [hcancelled, List.mem_singleton] at hcalls
    rw [hcalls, List.mem_singleton] at hcall
    rw [hcall] at hcrash
    cases hcrash

/-- One worker of a pair fails at the only row and tears its copy down. The other one is cancelled. -/
theorem copies_torn_down_pair : ∃ h,
    Pool.Reaches (pairSetup refusing) (pairPool refusing 0) h (pairPool refusing 60) ∧
      (pairPool refusing 60).workers.map (fun w => w.stage.exit?) =
        [some .failed, some .cancelled] ∧
      ∀ w ∈ (pairPool refusing 60).workers,
        (w.stage.exit? = some .failed → Copies.TornDown w.copies) ∧
          (w.stage.exit? = some .cancelled → Copies.InUse w.copies) := by
  obtain ⟨h, hp⟩ := pair_reaches refusing 60
  have hreturned : (pairPool refusing 60).outcome? ≠ none := fun hnone => nomatch hnone
  have hworkers := (copies_torn_down (pair refusing) (fun _ => .ofSeed 0) pairRows).2 _ _ _ hp hreturned
  refine ⟨h, hp, rfl, ?_⟩
  intro w hw
  obtain ⟨exit, hexit, hkept, hcancelled⟩ := hworkers w hw
  rw [hexit]
  refine ⟨?_, ?_⟩
  · intro hfailed
    cases hfailed
    exact hkept (by decide) (refusing_not_crashed _ (List.mem_map_of_mem hw))
  · intro hexit'
    cases hexit'
    exact (hcancelled rfl).1

/-- So a run can come to an end, although nothing crashed, and leave copies that were set up and
never torn down. -/
theorem cancelled_copies_in_use :
    ((pair refusing).startWith (.ofSeed 0) (fun _ => .ofSeed 0) (Pool.rounds 2) 60).ending ≠
        .unfinished ∧
      (∀ copies ∈ ((pair refusing).startWith (.ofSeed 0) (fun _ => .ofSeed 0) (Pool.rounds 2)
        60).workerCopies, ¬ Copies.Crashed copies) ∧
      ¬ ∀ copies ∈ ((pair refusing).startWith (.ofSeed 0) (fun _ => .ofSeed 0) (Pool.rounds 2)
        60).workerCopies, Copies.TornDown copies := by
  have hcopies : ((pair refusing).startWith (.ofSeed 0) (fun _ => .ofSeed 0) (Pool.rounds 2)
      60).workerCopies = (pairPool refusing 60).workers.map Pool.Worker.copies := rfl
  rw [hcopies]
  refine ⟨(fun hends => nomatch hends), refusing_not_crashed, ?_⟩
  intro htorn
  obtain ⟨first, second, heq⟩ : ∃ first second : List (Copy Unit),
    (pairPool refusing 60).workers.map Pool.Worker.copies = [first, second] := ⟨_, _, rfl⟩
  have hcalls := refusing_calls
  rw [heq, List.map_cons, List.map_cons, List.cons.injEq, List.cons.injEq] at hcalls
  -- the copy of the second worker
  have hstarted : [⟨.start, none⟩] ∈ second.map fun c => c.calls := by simp [hcalls.2.1]
  obtain ⟨c, hc, hccalls⟩ := List.mem_map.mp hstarted
  have hdone := htorn second (by simp [heq]) c hc (by simp [Copy.IsSetUp, hccalls])
  rw [Copy.count, hccalls] at hdone
  cases hdone

end Coordinator

end SeededRows
