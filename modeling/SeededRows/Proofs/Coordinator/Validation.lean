/-
  SeededRows.Proofs.Coordinator.Validation

  What an accepted coordinator can rely on when it is started. Its settings are valid, so its row ids
  can be laid out; and its fields could be selected, so every worker can select them again from the
  copies of the aggregators that it is given.
-/
import SeededRows.Proofs.Coordinator.Division
import SeededRows.Proofs.Settings

namespace SeededRows

variable {σ : Type}

/-! ## Engines with selected fields -/

/-- With fields that can be selected, an engine can be made unless one of its copies stops. -/
theorem Engine.start_of_selected {order : FieldOrder} {given copies : List (Copy σ)}
    {fields : List String} {stop : Stop}
    (hfields : selectFields order (given.map Copy.clone) = .ok fields)
    (h : start order given = (.error stop, copies)) :
    Copies.start [] (given.map Copy.clone) = (.error stop, copies) := by
  rw [start, hfields] at h
  rcases hstart : Copies.start [] (given.map Copy.clone) with ⟨s | ⟨⟩, started⟩
  · rw [hstart] at h
    cases h
    rfl
  · rw [hstart] at h
    cases h

namespace Coordinator

variable {settle : Pool.Settling σ}

/-- A worker that is given copies of aggregators that read the same fields has the same ones to draw. -/
theorem selectFields_givenTo (c : Coordinator σ) (entropy : Entropy)
    (hkeeps : c.settings.workers ≠ 1 → ∀ worker place copy,
      (settle worker place copy).aggregator.fieldsNeeded = copy.aggregator.fieldsNeeded) (worker : Nat) :
    selectFields c.order ((c.givenTo entropy settle worker).map Copy.clone) =
      selectFields c.order c.configured := by
  rw [selectFields_clone, givenTo]
  by_cases hone : c.settings.workers = 1
  · rw [if_pos hone]
  · rw [if_neg hone]
    apply selectFields_congr
    apply List.ext_getElem?
    intro i
    rw [setup, Pool.Setup.given, List.getElem?_map, List.getElem?_map, List.getElem?_mapIdx,
      List.getElem?_map, Option.map_map, Option.map_map]
    refine congrArg (Option.map · c.configured[i]?) (funext fun copy => ?_)
    exact hkeeps hone worker i copy.clone

/-- Validation agrees with the generator of row ids. Settings are valid for a number of aggregators
exactly when they ask for a worker, a batch size, a row and an aggregator, and the stream of their
rows can be generated; they fail with a refused argument only, and nothing is divided by a width of
zero on the way. So when an accepted coordinator is started its rows can always be laid out, whatever the entropy.
Every worker then selects the fields that were selected when the coordinator was accepted, on a pool
as long as the copies that the workers are given read the same fields, and it fails to make its
engine only if an aggregator cannot be set up. -/
theorem validate_agrees_with_stream (settings : Settings) (order : FieldOrder)
    (configured : List (Copy σ)) :
    (∀ aggregators entropy, settings.validate aggregators = .ok () ↔
      1 ≤ settings.workers ∧ 1 ≤ settings.batchSize.toNat ∧ 1 ≤ settings.rows ∧ 1 ≤ aggregators ∧
        ∃ rows, settings.plan.stream entropy settings.rows = .ok rows) ∧
    (∀ aggregators fault, settings.validate aggregators = .error fault →
      ∃ refusal, fault = .invalidArgument refusal) ∧
    (∀ divide : Nat → Nat → Except Stop Nat,
      (∀ a b, 0 < b → divide a b = .ok (RowIds.Plan.ceilDiv a b)) → ∀ aggregators,
        settings.validateBy divide aggregators = Stop.ofFault (settings.validate aggregators)) ∧
    ∀ c, ofSettings settings order configured = .ok c → ∀ ids entropy (settle : Pool.Settling σ),
      (∃ rows, c.settings.rowStream ids = .ok rows ∧ ∀ schedule moves,
        c.startAmid ids entropy settle schedule moves =
          if c.settings.workers = 1 then c.runInline entropy rows
          else c.runPool entropy settle schedule moves rows) ∧
      ((c.settings.workers ≠ 1 → ∀ worker place copy,
          (settle worker place copy).aggregator.fieldsNeeded = copy.aggregator.fieldsNeeded) →
        ∃ fields, selectFields order configured = .ok fields ∧ ∀ worker,
          selectFields c.order ((c.givenTo entropy settle worker).map Copy.clone) = .ok fields ∧
          ∀ stop copies,
            Engine.start c.order (c.givenTo entropy settle worker) = (.error stop, copies) →
            Copies.start [] ((c.givenTo entropy settle worker).map Copy.clone) =
              (.error stop, copies)) := by
  refine ⟨fun aggregators entropy => settings.validate_iff_stream entropy, ?_,
    fun divide hdivide aggregators => Settings.validateBy_eq hdivide, ?_⟩
  · intro aggregators fault h
    obtain ⟨refusal, -, hfault⟩ := Settings.validate_eq_error h
    exact ⟨refusal, hfault⟩
  · intro c hc ids entropy settle
    obtain ⟨hvalid, ⟨fields, hfields⟩, rfl⟩ := ofSettings_eq_ok hc
    constructor
    · obtain ⟨rows, hrows⟩ := rowStream_of_validate hvalid ids
      refine ⟨rows, hrows, fun schedule moves => ?_⟩
      rw [startAmid, if_pos rfl, hrows]
    · intro hkeeps
      refine ⟨fields, hfields, fun worker => ?_⟩
      have hselected := (selectFields_givenTo ⟨settings, order, configured, .filling⟩ entropy hkeeps
        worker).trans hfields
      exact ⟨hselected, fun stop copies h => Engine.start_of_selected hselected h⟩

/-- A division that crashes on zero. -/
def divideUp (a b : Nat) : Except Stop Nat :=
  if b = 0 then .error (.crash ⟨some "attempt to divide by zero"⟩) else .ok (RowIds.Plan.ceilDiv a b)

/-- The settings of as many rows as can be counted, in stripes of a width. -/
def fullSettings (width : UInt64) : Settings := ⟨none, 1, 18446744073709551615, 1, width, false⟩

/-- The largest number of rows fits into stripes of the largest width, but not into narrower ones; a
width of zero is refused and not divided by; and a pair of workers is started with its rows and
fields. -/
theorem validate_agrees_with_stream_full :
    (∃ rows, (fullSettings 4294967296).plan.stream (.ofSeed 0) 18446744073709551615 = .ok rows) ∧
    (¬ ∃ rows, (fullSettings 4294967295).plan.stream (.ofSeed 0) 18446744073709551615 = .ok rows) ∧
    (fullSettings 0).validateBy divideUp 1 = .error (.fault (.invalidArgument (.stripeWidth 0))) ∧
    (∃ rows, ∀ schedule moves,
      (pair counting).startAmid (.ofSeed 0) (fun _ => .ofSeed 0) .alike schedule moves =
        (pair counting).runPool (fun _ => .ofSeed 0) .alike schedule moves rows) ∧
    ∃ fields, ∀ worker, selectFields .empty
      (((pair counting).givenTo (fun _ => .ofSeed 0) .alike worker).map Copy.clone) = .ok fields := by
  obtain ⟨hwide, -, -, -⟩ := validate_agrees_with_stream (fullSettings 4294967296) .empty counting
  obtain ⟨hnarrow, -, -, -⟩ := validate_agrees_with_stream (fullSettings 4294967295) .empty counting
  obtain ⟨-, -, hzero, -⟩ := validate_agrees_with_stream (fullSettings 0) .empty counting
  obtain ⟨-, -, -, hstarts⟩ := validate_agrees_with_stream pairSettings .empty counting
  have hvalid : (fullSettings 4294967296).validate 1 = .ok () := rfl
  have hinvalid : (fullSettings 4294967295).validate 1 =
      refuse (.rowsOutsideStripes 18446744073709551615 4294967295) := rfl
  have hdivide : ∀ a b, 0 < b → divideUp a b = .ok (RowIds.Plan.ceilDiv a b) := fun a b hb => by
    rw [divideUp, if_neg (Nat.ne_of_gt hb)]
  obtain ⟨⟨rows, -, hruns⟩, hselects⟩ :=
    hstarts _ ofSettings_counting (.ofSeed 0) (fun _ => .ofSeed 0) .alike
  obtain ⟨fields, -, hfields⟩ := hselects fun _ _ _ _ => rfl
  refine ⟨((hwide 1 _).mp hvalid).2.2.2.2, ?_, (hzero divideUp hdivide 1).trans rfl,
    ⟨rows, hruns⟩, fields, fun worker => (hfields worker).1⟩
  rintro ⟨rows, hrows⟩
  have hvalid := (hnarrow 1 (.ofSeed 0)).mpr ⟨by decide, by decide, by decide, by decide, rows, hrows⟩
  cases hinvalid.symm.trans hvalid

end Coordinator

end SeededRows
