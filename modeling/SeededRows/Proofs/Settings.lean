/-
  SeededRows.Proofs.Settings

  The checks of settings. They are one decision on numbers, and they agree with the generator of row
  ids: valid settings are those that ask for something of everything and whose rows can be laid
  out. The width of a stripe is checked before anything is divided by it.
-/
import SeededRows.Proofs.RowIds.Layout
import SeededRows.Settings

namespace SeededRows

open RowIds (Plan)

/-! ## The first problem -/

instance : LawfulMonadLift (Except Fault) (Except Stop) where
  monadLift_pure _ := rfl
  monadLift_bind r _ := by cases r <;> rfl

namespace Settings

/-- The first problem of settings. -/
def problem? (s : Settings) (aggregators : Nat) : Option Refusal :=
  if s.numProcesses = 0 then some .noWorkers
  else if s.batchSize = 0 then some .noBatchSize
  else if s.numRows = 0 then some .noRows
  else if aggregators = 0 then some .noAggregators
  else if s.stripeWidth.toNat = 0 ∨ stripeLimit < s.stripeWidth.toNat then
    some (.stripeWidth s.stripeWidth.toNat)
  else if stripeLimit < Plan.ceilDiv s.rows s.stripeWidth.toNat then
    some (.rowsOutsideStripes s.rows s.stripeWidth.toNat)
  else none

/-- What comes of the checks when the first problem is known. -/
def verdict : Option Refusal → Except Fault Unit
  | some refusal => refuse refusal
  | none => .ok ()

variable {s : Settings} {aggregators : Nat}

section

variable {m : Type → Type} [Monad m] [LawfulMonad m] [MonadLiftT (Except Fault) m]
  {divide : Nat → Nat → m Nat}

/-- No rows need no stripes, so that only the width can be refused. -/
theorem stripesBy_zero (hdivide : ∀ a b, 0 < b → divide a b = pure (Plan.ceilDiv a b)) :
    s.plan.stripesBy divide 0 =
      if s.stripeWidth.toNat = 0 ∨ stripeLimit < s.stripeWidth.toNat then
        liftM (refuse (.stripeWidth s.stripeWidth.toNat) : Except Fault Nat)
      else pure 0 := by
  have hplan : s.plan.width = s.stripeWidth := rfl
  rw [Plan.stripesBy, hplan]
  by_cases hwidth : s.stripeWidth.toNat = 0 ∨ stripeLimit < s.stripeWidth.toNat
  · rw [if_pos hwidth, if_pos hwidth]
  · have hzero : Plan.ceilDiv 0 s.stripeWidth.toNat = 0 := by
      rw [Plan.ceilDiv]
      exact Nat.div_eq_of_lt (by omega)
    rw [if_neg hwidth, if_neg hwidth, hdivide _ _ (by omega), pure_bind, hzero,
      if_neg (Nat.not_lt_zero _)]

variable [LawfulMonadLiftT (Except Fault) m]

/-- Nothing comes after a refused argument. -/
theorem lift_refuse_bind {α β : Type} (refusal : Refusal) (f : α → m β) :
    (liftM (refuse refusal : Except Fault α) >>= f) = liftM (refuse refusal : Except Fault β) := by
  -- it gives no value that could be passed on
  have hnone (γ : Type) : (refuse refusal : Except Fault γ) =
      ((refuse refusal : Except Fault Empty) >>= fun e => pure e.elim) := rfl
  have hlift (γ : Type) : (liftM (refuse refusal : Except Fault γ) : m γ) =
      (liftM (refuse refusal : Except Fault Empty) >>= fun e => e.elim) := by
    rw [hnone γ]
    refine (monadLift_bind _ _).trans (congrArg _ (funext fun e => ?_))
    exact e.elim
  rw [hlift α, hlift β, bind_assoc]
  exact congrArg _ (funext fun e => e.elim)

/-- The checks look for the first problem. The division only has to be right where it is defined, as
the width is checked before anything is divided by it. -/
theorem validateBy_eq_verdict (hdivide : ∀ a b, 0 < b → divide a b = pure (Plan.ceilDiv a b)) :
    s.validateBy divide aggregators = liftM (verdict (s.problem? aggregators)) := by
  rw [validateBy, problem?, stripesBy_zero hdivide]
  by_cases hworkers : s.numProcesses = 0
  · simp only [if_pos hworkers, lift_refuse_bind]
    rfl
  simp only [if_neg hworkers]
  by_cases hbatch : s.batchSize = 0
  · simp only [if_pos hbatch, lift_refuse_bind]
    rfl
  simp only [if_neg hbatch]
  by_cases hrows : s.numRows = 0
  · simp only [if_pos hrows, lift_refuse_bind]
    rfl
  simp only [if_neg hrows]
  by_cases hnone : aggregators = 0
  · simp only [if_pos hnone, lift_refuse_bind]
    rfl
  simp only [if_neg hnone]
  by_cases hwidth : s.stripeWidth.toNat = 0 ∨ stripeLimit < s.stripeWidth.toNat
  · simp only [if_pos hwidth, lift_refuse_bind]
    rfl
  -- from here on there is something to divide by
  have hpos : 0 < s.stripeWidth.toNat := by omega
  simp only [if_neg hwidth, hdivide _ _ hpos, pure_bind]
  by_cases hcount : stripeLimit < Plan.ceilDiv s.rows s.stripeWidth.toNat
  · simp only [if_pos hcount]
    rfl
  · simp only [if_neg hcount]
    exact (monadLift_pure ()).symm

end

theorem validate_eq (s : Settings) (aggregators : Nat) :
    s.validate aggregators = verdict (s.problem? aggregators) :=
  validateBy_eq_verdict fun _ _ _ => rfl

/-- A division that crashes on some divisors makes no difference, if it is right where it is defined. -/
theorem validateBy_eq {divide : Nat → Nat → Except Stop Nat}
    (hdivide : ∀ a b, 0 < b → divide a b = .ok (Plan.ceilDiv a b)) :
    s.validateBy divide aggregators = Stop.ofFault (s.validate aggregators) := by
  rw [validate_eq]
  exact validateBy_eq_verdict hdivide

/-- Every failure is a refused argument. -/
theorem validate_eq_error {f : Fault} (h : s.validate aggregators = .error f) :
    ∃ refusal, s.problem? aggregators = some refusal ∧ f = .invalidArgument refusal := by
  rw [validate_eq] at h
  cases hproblem : s.problem? aggregators with
  | none =>
    rw [hproblem] at h
    cases h
  | some refusal =>
    rw [hproblem] at h
    cases h
    exact ⟨refusal, rfl, rfl⟩

theorem toNat_eq_zero_iff {n : UInt64} : n.toNat = 0 ↔ n = 0 :=
  UInt64.toNat_inj (b := 0)

theorem first_eq_none_iff {c : Prop} [Decidable c] {refusal : Refusal} {others : Option Refusal} :
    (if c then some refusal else others) = none ↔ ¬ c ∧ others = none := by
  by_cases h : c <;> simp [h]

/-- Nothing is wrong with settings that ask for workers, batches, rows and aggregators, and whose rows
can be laid out. -/
theorem validate_eq_ok_iff : s.validate aggregators = .ok () ↔
    1 ≤ s.workers ∧ 1 ≤ s.batchSize.toNat ∧ 1 ≤ s.rows ∧ 1 ≤ aggregators ∧
      1 ≤ s.stripeWidth.toNat ∧ s.stripeWidth.toNat ≤ stripeLimit ∧
      Plan.ceilDiv s.rows s.stripeWidth.toNat ≤ stripeLimit := by
  have hvalid : s.validate aggregators = .ok () ↔ s.problem? aggregators = none := by
    rw [validate_eq]
    cases s.problem? aggregators with
    | none => exact iff_of_true rfl rfl
    | some refusal => exact iff_of_false (fun h => nomatch h) (fun h => nomatch h)
  rw [hvalid, problem?, workers, rows]
  simp only [first_eq_none_iff, not_or, Nat.not_lt, and_assoc, and_true, ne_eq,
    Nat.one_le_iff_ne_zero, toNat_eq_zero_iff]

/-- Settings are valid when there is something to do and somebody to do it, and the row ids can be
generated. -/
theorem validate_iff_stream (entropy : Random.Source) : s.validate aggregators = .ok () ↔
    1 ≤ s.workers ∧ 1 ≤ s.batchSize.toNat ∧ 1 ≤ s.rows ∧ 1 ≤ aggregators ∧
      ∃ rows, s.plan.stream entropy s.rows = .ok rows := by
  rw [validate_eq_ok_iff, Plan.stream_isOk_iff, Plan.ceilDiv_eq]
  rfl

end Settings

end SeededRows
