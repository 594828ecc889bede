/-
  SeededRows.Proofs.Aggregator.Folding

  Folds of accumulators that come with their kinds. All kinds are looked at before the first two
  accumulators are combined: one accumulator of a foreign kind, wherever it stands, stops the fold
  before it has called anything. Otherwise the fold is the one of the values, from the left, which
  ends with the first combination that does not return.
-/
import SeededRows.Aggregator.Count
import SeededRows.Proofs.Aggregator.Calls

namespace SeededRows

variable {σ : Type}

/-- A list of accumulators is of one kind, or one of them is foreign to it. -/
theorem Accumulator.allOf?_eq_none_iff {k : Kind} {accs : List Accumulator} :
    allOf? k accs = none ↔ ∃ acc ∈ accs, acc.kind ≠ k := by
  induction accs with
  | nil => exact iff_of_false (by rintro ⟨⟩) (by simp)
  | cons acc accs ih =>
    rw [List.exists_mem_cons_iff, ← ih, ← as?_eq_none_iff, allOf?, List.mapM_cons, allOf?]
    cases acc.as? k with
    | none => exact iff_of_true rfl (.inl rfl)
    | some v => cases accs.mapM (as? k) <;> simp

namespace Aggregator

variable {a : Aggregator σ} {acc v : a.output.Carrier} {values : List a.output.Carrier}
  {t t' : Tracked σ} {r : Except Stop a.output.Carrier} {stop : Stop}

/-! ## Folds from the left -/

/-- What combining an accumulator with the values of a list comes to, one after the other. Every
combination works on the state that the one before it left. -/
inductive Folds (a : Aggregator σ) : a.output.Carrier → List a.output.Carrier → Tracked σ →
    Except Stop a.output.Carrier → Tracked σ → Prop
  | ends (acc : a.output.Carrier) (t : Tracked σ) : Folds a acc [] t (.ok acc) t
  | goesOn {acc acc' v : a.output.Carrier} {values : List a.output.Carrier} {t t' : Tracked σ}
      {r : Except Stop a.output.Carrier} {s : σ} (step : a.reduce acc v t.state = (.ok acc', s))
      (rest : Folds a acc' values ⟨s, ⟨.reduce, none⟩ :: t.calls⟩ r t') :
      Folds a acc (v :: values) t r t'
  | stops {acc v : a.output.Carrier} (values : List a.output.Carrier) {t : Tracked σ} {stop : Stop}
      {s : σ} (step : a.reduce acc v t.state = (.error stop, s)) :
      Folds a acc (v :: values) t (.error stop) ⟨s, ⟨.reduce, some stop⟩ :: t.calls⟩

theorem folds_reduceFrom (acc : a.output.Carrier) (values : List a.output.Carrier) (t : Tracked σ) :
    a.Folds acc values t (a.reduceFrom acc values t).1 (a.reduceFrom acc values t).2 := by
  induction values generalizing acc t with
  | nil => exact .ends acc t
  | cons v values ih =>
    rcases hstep : a.reduce acc v t.state with ⟨stop | acc', s⟩
    · rw [reduceFrom, Hook.bind_of_error (tracked_of_eq .reduce hstep)]
      exact .stops values hstep
    · rw [reduceFrom, Hook.bind_of_ok (tracked_of_eq .reduce hstep)]
      exact .goesOn hstep (ih acc' _)

theorem Folds.reduceFrom_eq (h : a.Folds acc values t r t') : a.reduceFrom acc values t = (r, t') := by
  induction h with
  | ends => rfl
  | goesOn step _ ih =>
    rw [reduceFrom, Hook.bind_of_ok (tracked_of_eq .reduce step)]
    exact ih
  | stops _ step =>
    rw [reduceFrom, Hook.bind_of_error (tracked_of_eq .reduce step)]
    rfl

theorem reduceFrom_eq_iff_folds : a.reduceFrom acc values t = (r, t') ↔ a.Folds acc values t r t' := by
  constructor
  · intro h
    have hfolds := folds_reduceFrom acc values t
    rwa [h] at hfolds
  · exact Folds.reduceFrom_eq

/-- Without its history, the fold is the left fold of the combination itself. -/
theorem Folds.foldlM_eq (h : a.Folds acc values t r t') :
    values.foldlM a.reduce acc t.state = (r, t'.state) := by
  induction h with
  | ends => rfl
  | goesOn step _ ih =>
    rw [List.foldlM_cons, Hook.bind_of_ok step]
    exact ih
  | stops _ step => rw [List.foldlM_cons, Hook.bind_of_error step]

/-- A fold that stops has called something. -/
theorem Folds.calls_lt (h : a.Folds acc values t (.error stop) t') : t.calls.length < t'.calls.length := by
  generalize hr : Except.error stop = r at h
  induction h with
  | ends => cases hr
  | goesOn _ _ ih => exact Nat.lt_trans (Nat.lt_succ_self _) (ih hr)
  | stops => exact Nat.lt_succ_self _

/-- Only the fold of nothing stops without a call. -/
theorem reduceList_eq_error_iff : a.reduceList values t = (.error stop, t) ↔
    values = [] ∧ stop = .fault a.emptyReduce := by
  cases values with
  | nil =>
    constructor
    · rintro ⟨⟩
      exact ⟨rfl, rfl⟩
    · rintro ⟨-, rfl⟩
      rfl
  | cons v values =>
    refine iff_of_false ?_ (by rintro ⟨⟨⟩, -⟩)
    intro h
    exact Nat.lt_irrefl _ (reduceFrom_eq_iff_folds.mp h).calls_lt

/-! ## Accumulators with their kinds -/

theorem reduceAny_mk (a : Aggregator σ) (values : List a.output.Carrier) (t : Tracked σ) :
    a.reduceAny (values.map (Accumulator.mk a.output)) t =
      ((a.reduceList values t).1.map (Accumulator.mk a.output), (a.reduceList values t).2) := by
  rw [reduceAny, Accumulator.allOf?_mk]
  rcases hr : a.reduceList values t with ⟨stop | v, t'⟩
  · exact Hook.bind_of_error hr
  · exact Hook.bind_of_ok hr

theorem exists_map_mk {k : Accumulator.Kind} {accs : List Accumulator}
    (h : ∀ acc ∈ accs, acc.kind = k) :
    ∃ values : List k.Carrier, accs = values.map (Accumulator.mk k) := by
  cases hall : Accumulator.allOf? k accs with
  | none =>
    obtain ⟨acc, hacc, hne⟩ := Accumulator.allOf?_eq_none_iff.mp hall
    exact absurd (h acc hacc) hne
  | some values => exact ⟨values, Accumulator.allOf?_eq_some_iff.mp hall⟩

/-- Only an accumulator of a foreign kind makes the fold foreign. -/
theorem reduceAny_eq_foreign_iff {accs : List Accumulator} :
    a.reduceAny accs t = (.error (.fault a.foreign), t) ↔ ∃ acc ∈ accs, acc.kind ≠ a.output := by
  rw [← Accumulator.allOf?_eq_none_iff]
  cases hall : Accumulator.allOf? a.output accs with
  | none =>
    refine iff_of_true ?_ rfl
    rw [reduceAny, hall]
    rfl
  | some values =>
    refine iff_of_false ?_ (by rintro ⟨⟩)
    rw [Accumulator.allOf?_eq_some_iff.mp hall, reduceAny_mk]
    intro h
    have hlist : a.reduceList values t = (.error (.fault a.foreign), t) := by
      rcases hr : a.reduceList values t with ⟨stop | v, t'⟩
      · rw [hr] at h
        cases h
        rfl
      · rw [hr] at h
        cases h
    cases (reduceList_eq_error_iff.mp hlist).2

/-- The fold of accumulators that come with their kinds is the fold of their values. If all are of
the kind of the aggregator, it gives what that fold gives with the kind, and leaves the copy as that
fold does; which is the left fold of the combination onto the first value, up to the first
combination that does not return, and which is refused without a call for no values only. If one is
of a foreign kind, wherever it stands, the aggregator refuses the list without a call. -/
theorem reduceAny_folds (a : Aggregator σ) (t : Tracked σ) :
    (∀ accs : List Accumulator, (∀ acc ∈ accs, acc.kind = a.output) →
      ∃ values : List a.output.Carrier, accs = values.map (Accumulator.mk a.output) ∧
        a.reduceAny accs t =
          ((a.reduceList values t).1.map (Accumulator.mk a.output), (a.reduceList values t).2)) ∧
    (∀ v values r t', a.reduceList (v :: values) t = (r, t') ↔ a.Folds v values t r t') ∧
    (∀ v values, values.foldlM a.reduce v t.state =
      ((a.reduceList (v :: values) t).1, (a.reduceList (v :: values) t).2.state)) ∧
    (∀ values, a.reduceList values t =
        (.error (.fault (.emptyInput (a.name ++ ": reduce_list over no values"))), t) ↔ values = []) ∧
    ∀ accs : List Accumulator, a.reduceAny accs t =
        (.error (.fault (.aggregator a.name "accumulator has an unexpected type")), t) ↔
      ∃ acc ∈ accs, acc.kind ≠ a.output := by
  refine ⟨?_, ?_, ?_, ?_, ?_⟩
  · intro accs hkinds
    obtain ⟨values, rfl⟩ := exists_map_mk hkinds
    exact ⟨values, rfl, a.reduceAny_mk values t⟩
  · intro v values r t'
    exact reduceFrom_eq_iff_folds
  · intro v values
    exact (a.folds_reduceFrom v values t).foldlM_eq
  · intro values
    have hempty : values = [] ∧ Stop.fault a.emptyReduce = .fault a.emptyReduce ↔ values = [] :=
      and_iff_left rfl
    exact reduceList_eq_error_iff.trans hempty
  · intro accs
    exact reduceAny_eq_foreign_iff

/-- Two counts are folded; a text after a count is refused before anything is called. -/
theorem reduceAny_folds_counts :
    (∀ acc ∈ [Accumulator.mk .count (3 : Nat), .mk .count (4 : Nat)],
      acc.kind = (count Unit).output) ∧
    (∃ values : List (count Unit).output.Carrier,
      [Accumulator.mk .count (3 : Nat), .mk .count (4 : Nat)] =
        values.map (Accumulator.mk (count Unit).output) ∧
      (count Unit).reduceAny [.mk .count (3 : Nat), .mk .count (4 : Nat)] ⟨(), []⟩ =
        (((count Unit).reduceList values ⟨(), []⟩).1.map (Accumulator.mk (count Unit).output),
          ((count Unit).reduceList values ⟨(), []⟩).2)) ∧
    (count Unit).reduceAny [.mk .count (3 : Nat), .mk .text "4"] ⟨(), []⟩ =
      (.error (.fault (.aggregator "row_counter" "accumulator has an unexpected type")), ⟨(), []⟩) := by
  have hcounts : ∀ acc ∈ [Accumulator.mk .count (3 : Nat), .mk .count (4 : Nat)],
      acc.kind = (count Unit).output := by simp [count]
  have hforeign : ∃ acc ∈ [Accumulator.mk .count (3 : Nat), .mk .text "4"],
      acc.kind ≠ (count Unit).output := ⟨.mk .text "4", by simp, nofun⟩
  obtain ⟨hfolds, -, -, -, hrefuses⟩ := reduceAny_folds (count Unit) ⟨(), []⟩
  exact ⟨hcounts, hfolds _ hcounts, (hrefuses _).mpr hforeign⟩

end Aggregator

end SeededRows
