/-
  SeededRows.Proofs.Aggregator.Calls

  The calls that are made on copies of aggregators. Every copy has a history of them. Setting a
  copy up and tearing it down add one call each; what is done with rows in between adds calls of
  `map` and `reduce` only, and if it comes to a value, all of them returned: then a batch makes one
  call of `map` for each row, and folding accumulators one call of `reduce` less than there are.
-/
import SeededRows.Proofs.Aggregator.Summing

namespace SeededRows

variable {σ : Type} {α β : Type}

/-- Accumulators of one kind have one value each. -/
theorem Accumulator.length_allOf? {k : Kind} {accs : List Accumulator} {values : List k.Carrier}
    (h : allOf? k accs = some values) : values.length = accs.length := by
  rw [allOf?_eq_some_iff.mp h, List.length_map]

/-! ## Hooks that call others -/

namespace Hook

/-- The hook calls hooks of some stages only, and when it gives a value, all of them returned. -/
def Notes (P : Stage → Prop) (h : Hook (Tracked σ) α) : Prop :=
  ∀ t, ∃ more, (h t).2.calls = more ++ t.calls ∧ (∀ call ∈ more, P call.stage) ∧
    ∀ a, (h t).1 = .ok a → ∀ call ∈ more, call.stop? = none

variable {P Q : Stage → Prop}

theorem Notes.mono {h : Hook (Tracked σ) α} (hh : h.Notes P) (hPQ : ∀ stage, P stage → Q stage) :
    h.Notes Q := by
  intro t
  obtain ⟨more, hcalls, hstages, hok⟩ := hh t
  exact ⟨more, hcalls, fun call hcall => hPQ _ (hstages call hcall), hok⟩

theorem Notes.pure (a : α) : (pure a : Hook (Tracked σ) α).Notes P :=
  fun t => ⟨[], rfl, by simp, by simp⟩

theorem Notes.fail (f : Fault) : (fail f : Hook (Tracked σ) α).Notes P :=
  fun t => ⟨[], rfl, by simp, by simp⟩

theorem Notes.bind {h : Hook (Tracked σ) α} {f : α → Hook (Tracked σ) β} (hh : h.Notes P)
    (hf : ∀ a, (f a).Notes P) : (h >>= f).Notes P := by
  intro t
  obtain ⟨more, hcalls, hstages, hok⟩ := hh t
  rcases hr : h t with ⟨stop | a, t'⟩
  · rw [hr] at hcalls
    rw [bind_of_error hr]
    exact ⟨more, hcalls, hstages, by simp⟩
  · rw [hr] at hcalls hok
    rw [bind_of_ok hr]
    obtain ⟨more', hcalls', hstages', hok'⟩ := hf a t'
    refine ⟨more' ++ more, ?_, ?_, ?_⟩
    · rw [hcalls', hcalls, List.append_assoc]
    · intro call hcall
      rcases List.mem_append.mp hcall with hcall | hcall
      · exact hstages' call hcall
      · exact hstages call hcall
    · intro b hb call hcall
      rcases List.mem_append.mp hcall with hcall | hcall
      · exact hok' b hb call hcall
      · exact hok a rfl call hcall

end Hook

namespace Aggregator

variable (a : Aggregator σ)

theorem tracked_notes (stage : Stage) (h : Hook σ α) : (tracked stage h).Notes (· = stage) := by
  intro t
  refine ⟨[⟨stage, Stop.of? (h t.state).1⟩], rfl, by simp, ?_⟩
  intro v hv call hcall
  have hr : (h t.state).1 = .ok v := hv
  rw [List.mem_singleton.mp hcall, hr]
  rfl

theorem reduceFrom_notes (acc : a.output.Carrier) (values : List a.output.Carrier) :
    (a.reduceFrom acc values).Notes (· = .reduce) := by
  induction values generalizing acc with
  | nil => exact .pure acc
  | cons v values ih => exact (tracked_notes .reduce _).bind ih

theorem reduceList_notes (values : List a.output.Carrier) :
    (a.reduceList values).Notes (· = .reduce) := by
  cases values with
  | nil => exact .fail _
  | cons v values => exact a.reduceFrom_notes v values

theorem mapOnto_notes (mapped : List a.output.Carrier) (rows : List Row) :
    (a.mapOnto mapped rows).Notes (· = .map) := by
  induction rows generalizing mapped with
  | nil => exact .pure mapped
  | cons row rows ih => exact (tracked_notes .map _).bind fun v => ih (v :: mapped)

theorem mapReduceAny_notes (rows : List Row) :
    (a.mapReduceAny rows).Notes fun stage => stage = .map ∨ stage = .reduce := by
  have hreduce : (a.mapReduce rows).Notes fun stage => stage = .map ∨ stage = .reduce := by
    cases rows with
    | nil => exact .fail _
    | cons row rows =>
      refine ((a.mapOnto_notes [] _).mono fun _ h => .inl h).bind fun mapped => ?_
      exact (a.reduceList_notes _).mono fun _ h => .inr h
  exact hreduce.bind fun v => .pure _

end Aggregator

/-! ## Calls that come to a value -/

namespace Hook

/-- A hook that comes to a value does so step by step. -/
theorem bind_eq_ok {h : Hook σ α} {f : α → Hook σ β} {s s' : σ} {b : β} (hb : (h >>= f) s = (.ok b, s')) :
    ∃ a s₁, h s = (.ok a, s₁) ∧ f a s₁ = (.ok b, s') := by
  rcases hr : h s with ⟨stop | a, s₁⟩
  · rw [bind_of_error hr] at hb
    cases hb
  · rw [bind_of_ok hr] at hb
    exact ⟨a, s₁, rfl, hb⟩

end Hook

/-- Calls of one hook, all of which returned. -/
def Call.returned (stage : Stage) (n : Nat) : List Call := List.replicate n ⟨stage, none⟩

theorem Call.returned_succ (stage : Stage) (n : Nat) (calls : List Call) :
    returned stage (n + 1) ++ calls = returned stage n ++ ⟨stage, none⟩ :: calls := by
  rw [returned, List.replicate_succ', List.append_assoc]
  rfl

theorem Call.count_returned (stage stage' : Stage) (n : Nat) :
    (returned stage n).countP (fun call => call.stage == stage') = if stage = stage' then n else 0 := by
  rw [returned, List.countP_replicate]
  by_cases h : stage = stage' <;> simp [h]

namespace Aggregator

variable {a : Aggregator σ} {t t' : Tracked σ}

/-- A hook that returned has changed the state, and the call is noted. -/
theorem tracked_eq_ok {stage : Stage} {h : Hook σ α} {v : α} (hr : tracked stage h t = (.ok v, t')) :
    h t.state = (.ok v, t'.state) ∧ t'.calls = ⟨stage, none⟩ :: t.calls := by
  have hv : (h t.state).1 = .ok v := congrArg Prod.fst hr
  have ht : ⟨(h t.state).2, ⟨stage, Stop.of? (h t.state).1⟩ :: t.calls⟩ = t' := congrArg Prod.snd hr
  rw [← ht]
  refine ⟨Prod.ext hv rfl, ?_⟩
  rw [hv]
  rfl

theorem calls_of_reduceFrom {acc v : a.output.Carrier} {values : List a.output.Carrier}
    (h : a.reduceFrom acc values t = (.ok v, t')) :
    t'.calls = Call.returned .reduce values.length ++ t.calls := by
  induction values generalizing acc t with
  | nil =>
    cases h
    rfl
  | cons w values ih =>
    obtain ⟨acc', t₁, htracked, hrest⟩ := Hook.bind_eq_ok h
    rw [ih hrest, (tracked_eq_ok htracked).2, List.length_cons, Call.returned_succ]

theorem calls_of_reduceList {v : a.output.Carrier} {values : List a.output.Carrier}
    (h : a.reduceList values t = (.ok v, t')) :
    values ≠ [] ∧ t'.calls = Call.returned .reduce (values.length - 1) ++ t.calls := by
  cases values with
  | nil => cases h
  | cons w values => exact ⟨List.cons_ne_nil _ _, calls_of_reduceFrom h⟩

theorem calls_of_mapOnto {mapped all : List a.output.Carrier} {rows : List Row}
    (h : a.mapOnto mapped rows t = (.ok all, t')) :
    all.length = rows.length + mapped.length ∧
      t'.calls = Call.returned .map rows.length ++ t.calls := by
  induction rows generalizing mapped t with
  | nil =>
    cases h
    exact ⟨(Nat.zero_add _).symm, rfl⟩
  | cons row rows ih =>
    obtain ⟨v, t₁, htracked, hrest⟩ := Hook.bind_eq_ok h
    obtain ⟨hlength, hcalls⟩ := ih hrest
    refine ⟨?_, ?_⟩
    · rw [hlength, List.length_cons, List.length_cons]
      omega
    · rw [hcalls, (tracked_eq_ok htracked).2, List.length_cons, Call.returned_succ]

/-- A batch that comes to an accumulator has rows; each was mapped, and then they were folded. -/
theorem calls_of_mapReduceAny {rows : List Row} {acc : Accumulator}
    (h : a.mapReduceAny rows t = (.ok acc, t')) :
    rows ≠ [] ∧ t'.calls =
      Call.returned .reduce (rows.length - 1) ++ (Call.returned .map rows.length ++ t.calls) := by
  obtain ⟨v, t₁, hbatch, hpure⟩ := Hook.bind_eq_ok h
  cases hpure
  cases rows with
  | nil => cases hbatch
  | cons row rows =>
    obtain ⟨mapped, t₁, hmapped, hfolded⟩ := Hook.bind_eq_ok hbatch
    obtain ⟨hlength, hcalls⟩ := calls_of_mapOnto hmapped
    have hreduced := (calls_of_reduceList hfolded).2
    rw [List.length_reverse, hlength, hcalls] at hreduced
    exact ⟨List.cons_ne_nil _ _, hreduced⟩

theorem reduceAny_notes (a : Aggregator σ) (values : List Accumulator) :
    (a.reduceAny values).Notes (· = .reduce) := by
  rw [reduceAny]
  cases Accumulator.allOf? a.output values with
  | none => exact .fail _
  | some vs => exact (a.reduceList_notes vs).bind fun v => .pure _

theorem calls_of_reduceAny {values : List Accumulator} {acc : Accumulator}
    (h : a.reduceAny values t = (.ok acc, t')) :
    values ≠ [] ∧ t'.calls = Call.returned .reduce (values.length - 1) ++ t.calls := by
  rw [reduceAny] at h
  cases hall : Accumulator.allOf? a.output values with
  | none =>
    rw [hall] at h
    cases h
  | some vs =>
    rw [hall] at h
    obtain ⟨v, t₁, hfolded, hpure⟩ := Hook.bind_eq_ok h
    cases hpure
    obtain ⟨hne, hcalls⟩ := calls_of_reduceList hfolded
    have hlength : vs.length = values.length := Accumulator.length_allOf? hall
    refine ⟨?_, hlength ▸ hcalls⟩
    rintro rfl
    exact hne (List.length_eq_zero_iff.mp hlength)

end Aggregator

namespace Copy

variable {c c' : Copy σ}

theorem of_run {h : Hook (Tracked σ) α} {r : Except Stop α} (hr : c.run h = (r, c')) :
    h c.toTracked = (r, c'.toTracked) ∧ c'.aggregator = c.aggregator := by
  rw [run] at hr
  cases hr
  exact ⟨rfl, rfl⟩

theorem calls_of_start (h : c.start = (.ok (), c')) : c'.calls = ⟨.start, none⟩ :: c.calls :=
  (Aggregator.tracked_eq_ok (of_run h).1).2

theorem calls_of_done (h : c.done = (.ok (), c')) : c'.calls = ⟨.done, none⟩ :: c.calls :=
  (Aggregator.tracked_eq_ok (of_run h).1).2

theorem calls_of_mapReduce {rows : List Row} {acc : Accumulator} (h : c.mapReduce rows = (.ok acc, c')) :
    rows ≠ [] ∧ c'.calls =
      Call.returned .reduce (rows.length - 1) ++ (Call.returned .map rows.length ++ c.calls) :=
  Aggregator.calls_of_mapReduceAny (of_run h).1

theorem calls_of_reduce {values : List Accumulator} {acc : Accumulator}
    (h : c.reduce values = (.ok acc, c')) :
    values ≠ [] ∧ c'.calls = Call.returned .reduce (values.length - 1) ++ c.calls :=
  Aggregator.calls_of_reduceAny (of_run h).1

end Copy

/-! ## The life of a copy -/

namespace Copy

/-- The copy was set up. -/
def IsSetUp (c : Copy σ) : Prop := ⟨.start, none⟩ ∈ c.calls

/-- The copy was set up and not torn down since. -/
def InUse (c : Copy σ) : Prop := c.IsSetUp ∧ c.count .done = 0

/-- If the copy was set up, it was torn down, once. -/
def TornDown (c : Copy σ) : Prop := c.IsSetUp → c.count .done = 1

/-- Setting the copy up or tearing it down crashed. -/
def Crashed (c : Copy σ) : Prop := ∃ call ∈ c.calls,
  (call.stage = .start ∨ call.stage = .done) ∧ ∃ crash, call.stop? = some (.crash crash)

variable {c : Copy σ}

/-- A copy that came back from its setup, on which nothing had been called before. -/
theorem start_cases (h : c.calls = []) :
    (c.start.1 = .ok () ∧ c.start.2.InUse) ∨
    ((∃ f, c.start.1 = .error (.fault f)) ∧ c.start.2.TornDown) ∨
    ((∃ crash, c.start.1 = .error (.crash crash)) ∧ c.start.2.Crashed) := by
  have hcalls : c.start.2.calls = ⟨.start, Stop.of? c.start.1⟩ :: c.calls := rfl
  rw [h] at hcalls
  rcases hr : c.start.1 with (f | crash) | ⟨⟩
  · rw [hr] at hcalls
    refine .inr (.inl ⟨⟨f, rfl⟩, ?_⟩)
    intro hsetup
    rw [IsSetUp, hcalls] at hsetup
    simp [Stop.of?] at hsetup
  · rw [hr] at hcalls
    refine .inr (.inr ⟨⟨crash, rfl⟩, ⟨.start, some (.crash crash)⟩, ?_, .inl rfl, crash, rfl⟩)
    rw [hcalls]
    exact List.mem_cons_self
  · rw [hr] at hcalls
    refine .inl ⟨rfl, ?_, ?_⟩
    · rw [IsSetUp, hcalls]
      exact List.mem_cons_self
    · rw [count, hcalls]
      rfl

theorem InUse.done (h : c.InUse) : c.done.2.TornDown := by
  have hcalls : c.done.2.calls = ⟨.done, Stop.of? c.done.1⟩ :: c.calls := rfl
  intro _
  rw [count, hcalls, List.countP_cons_of_pos rfl]
  exact congrArg (· + 1) h.2

theorem crashed_of_done {crash : Crash} (h : c.done.1 = .error (.crash crash)) : c.done.2.Crashed := by
  have hcalls : c.done.2.calls = ⟨.done, Stop.of? c.done.1⟩ :: c.calls := rfl
  refine ⟨⟨.done, some (.crash crash)⟩, ?_, .inr rfl, crash, rfl⟩
  rw [hcalls, h]
  exact List.mem_cons_self

/-- Rows do not set a copy up or tear it down. -/
theorem InUse.mapReduce (h : c.InUse) (rows : List Row) : (c.mapReduce rows).2.InUse := by
  obtain ⟨more, hcalls, hstages, -⟩ := c.aggregator.mapReduceAny_notes rows c.toTracked
  have hcalls' : (c.mapReduce rows).2.calls = more ++ c.calls := hcalls
  refine ⟨?_, ?_⟩
  · rw [IsSetUp, hcalls']
    exact List.mem_append_right more h.1
  · rw [count, hcalls', List.countP_append, List.countP_eq_zero.mpr, Nat.zero_add]
    · exact h.2
    · intro call hcall hdone
      rw [beq_iff_eq] at hdone
      have hstage := hstages call hcall
      rw [hdone] at hstage
      simp at hstage

end Copy

end SeededRows
