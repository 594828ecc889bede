/-
  SeededRows.Proofs.Aggregator.Reductions

  Reductions never stop. What an aggregator meets outside can keep a copy from being set up, from
  being torn down, or from mapping a row; but a copy that maps a row at all maps it as its
  aggregator does, and it reduces accumulators as its aggregator does. So a batch either comes to
  an accumulator of its rows, or the copy stops at a call of `map`. On no copy does a call of
  `reduce` not return.
-/
import SeededRows.Proofs.Aggregator.Calls

namespace SeededRows

variable {σ : Type} {α : Type}

/-! ## Aggregators that fare differently -/

/-- What a hook other than `reduce` can stop with. -/
inductive Aggregator.Stops (a : Aggregator σ) (stop : Stop) : Prop
  | start {s s' : σ} (stops : a.start s = (.error stop, s'))
  | map {row : Row} {s s' : σ} (stops : a.map row s = (.error stop, s'))
  | done {s s' : σ} (stops : a.done s = (.error stop, s'))

/-- An aggregator that fares differently from `S` outside, but maps a row as `S` does, if it maps it,
and reduces as `S` does. -/
def Summer.Fits (S : Summer σ) (a : Aggregator σ) : Prop :=
  ∃ start map done, a = { S.aggregator with start, map, done } ∧
    ∀ {row s v s'}, map row s = (.ok v, s') → S.summing.Maps row ∧ S.summing.Sums [row] v

theorem Summer.Fits.fieldsNeeded {S : Summer σ} {a : Aggregator σ} (h : S.Fits a) :
    a.fieldsNeeded = S.aggregator.fieldsNeeded := by
  obtain ⟨start, map, done, rfl, -⟩ := h
  rfl

namespace Aggregator

theorem of_tracked {stage : Stage} {h : Hook σ α} {t t' : Tracked σ} {r : Except Stop α}
    (hr : tracked stage h t = (r, t')) : h t.state = (r, t'.state) := by
  cases hr
  rfl

/-- Rows that are mapped without a result stop at a call of `map`. -/
theorem stops_of_mapOnto {a : Aggregator σ} {mapped : List a.output.Carrier} {rows : List Row}
    {t t' : Tracked σ} {stop : Stop} (h : a.mapOnto mapped rows t = (.error stop, t')) :
    a.Stops stop := by
  induction rows generalizing mapped t with
  | nil => cases h
  | cons row rows ih =>
    rcases hr : tracked .map (a.map row) t with ⟨stop' | v, t₁⟩
    · rw [mapOnto, Hook.bind_of_error hr] at h
      cases h
      exact .map (of_tracked hr)
    · rw [mapOnto, Hook.bind_of_ok hr] at h
      exact ih h

/-- Folds go by the reduction of an aggregator only. -/
theorem reduceFrom_hooks (a : Aggregator σ) (start done : Hook σ Unit)
    (map : Row → Hook σ a.output.Carrier) (acc : a.output.Carrier) (values : List a.output.Carrier) :
    Aggregator.reduceFrom { a with start, map, done } acc values = a.reduceFrom acc values := by
  induction values generalizing acc with
  | nil => rfl
  | cons v values ih => exact congrArg (tracked .reduce (a.reduce acc v) >>= ·) (funext ih)

theorem reduceList_hooks (a : Aggregator σ) (start done : Hook σ Unit)
    (map : Row → Hook σ a.output.Carrier) (values : List a.output.Carrier) :
    Aggregator.reduceList { a with start, map, done } values = a.reduceList values := by
  cases values with
  | nil => rfl
  | cons v values => exact a.reduceFrom_hooks start done map v values

end Aggregator

/-! ## Batches -/

namespace Summer

variable {S : Summer σ} {start done : Hook σ Unit} {map : Row → Hook σ S.aggregator.output.Carrier}

/-- The rows that were mapped can be mapped, and each gave an accumulator of itself. -/
theorem mapOnto_sums
    (hmap : ∀ {row s v s'}, map row s = (.ok v, s') → S.summing.Maps row ∧ S.summing.Sums [row] v)
    {mapped all : List S.aggregator.output.Carrier} {rows : List Row} {t t' : Tracked σ}
    (h : Aggregator.mapOnto { S.aggregator with start, map, done } mapped rows t = (.ok all, t')) :
    (∀ row ∈ rows, S.summing.Maps row) ∧ ∃ values, all = values.reverse ++ mapped ∧
      List.Forall₂ S.summing.Sums (rows.map ([·])) values := by
  induction rows generalizing mapped t with
  | nil =>
    cases h
    exact ⟨fun row hrow => (nomatch hrow), [], rfl, .nil⟩
  | cons row rows ih =>
    rcases hr : Aggregator.tracked .map (map row) t with ⟨stop | v, t₁⟩
    · rw [Aggregator.mapOnto, Hook.bind_of_error hr] at h
      cases h
    · rw [Aggregator.mapOnto, Hook.bind_of_ok hr] at h
      obtain ⟨hrow, hv⟩ := hmap (Aggregator.of_tracked hr)
      obtain ⟨hrows, values, rfl, hvalues⟩ := ih h
      refine ⟨?_, v :: values, ?_, .cons hv hvalues⟩
      · intro row' hrow'
        rcases List.mem_cons.mp hrow' with rfl | hrow'
        · exact hrow
        · exact hrows row' hrow'
      · rw [List.reverse_cons, List.append_assoc]
        rfl

/-- A batch comes to an accumulator of its rows, or stops at a call of `map`; its reductions
return. -/
theorem Fits.mapReduceAny {a : Aggregator σ} (h : S.Fits a) {rows : List Row} (hne : rows ≠ [])
    (hsum : Summable rows) (t : Tracked σ) :
    ((∃ acc t', a.mapReduceAny rows t = (.ok acc, t') ∧ S.Accumulates rows acc ∧
        ∀ row ∈ rows, S.summing.Maps row) ∨
      ∃ stop t', a.mapReduceAny rows t = (.error stop, t') ∧ a.Stops stop) ∧
    ∃ more, (a.mapReduceAny rows t).2.calls = more ++ t.calls ∧
      ∀ call ∈ more, call.stage = .reduce → call.stop? = none := by
  obtain ⟨start, map, done, rfl, hmap⟩ := h
  obtain ⟨row, rest, rfl⟩ := List.exists_cons_of_ne_nil hne
  -- the calls of a batch: those that map its rows, and those that fold the accumulators
  obtain ⟨more, hcalls, hstages, hreturned⟩ := Aggregator.mapReduceAny_notes
    { S.aggregator with start, map, done } (row :: rest) t
  rcases hmapped : Aggregator.mapOnto { S.aggregator with start, map, done } [] (row :: rest) t with
    ⟨stop | mapped, t₁⟩
  · have hbatch : Aggregator.mapReduceAny { S.aggregator with start, map, done } (row :: rest) t =
        (.error stop, t₁) := Hook.bind_of_error (Hook.bind_of_error hmapped)
    refine ⟨.inr ⟨stop, t₁, hbatch, Aggregator.stops_of_mapOnto hmapped⟩, ?_⟩
    obtain ⟨more', hcalls', hstages', -⟩ := Aggregator.mapOnto_notes
      { S.aggregator with start, map, done } [] (row :: rest) t
    rw [hmapped] at hcalls'
    refine ⟨more', by rw [hbatch, hcalls'], ?_⟩
    intro call hcall hreduce
    cases (hstages' call hcall).symm.trans hreduce
  · obtain ⟨hrows, values, rfl, hvalues⟩ := mapOnto_sums hmap hmapped
    have hflat : ((row :: rest).map ([·])).flatten = row :: rest := by
      rw [← List.flatMap_def, List.flatMap_singleton']
    obtain ⟨v, t₂, hreduce, -, hv⟩ :=
      S.summing.reduceList hvalues (List.cons_ne_nil _ _) (hflat.symm ▸ hsum) t₁
    rw [hflat] at hv
    have hfolded : Aggregator.reduceList { S.aggregator with start, map, done }
        (values.reverse ++ []).reverse t₁ = (.ok v, t₂) := by
      rw [List.append_nil, List.reverse_reverse, Aggregator.reduceList_hooks]
      exact hreduce
    have hbatch : Aggregator.mapReduceAny { S.aggregator with start, map, done } (row :: rest) t =
        (.ok ⟨S.aggregator.output, v⟩, t₂) :=
      Hook.bind_of_ok ((Hook.bind_of_ok hmapped).trans hfolded)
    refine ⟨.inl ⟨_, t₂, hbatch, ⟨v, rfl, hv⟩, hrows⟩, more, hcalls, ?_⟩
    exact fun call hcall _ => hreturned _ (congrArg Prod.fst hbatch) call hcall

end Summer

/-! ## Copies -/

namespace Copy

/-- No reduction on the copy stopped. -/
def Unbroken (c : Copy σ) : Prop := ∀ call ∈ c.calls, call.stage = .reduce → call.stop? = none

variable {c : Copy σ}

theorem unbroken_of_fresh (h : c.calls = []) : c.Unbroken := by
  intro call hcall
  rw [h] at hcall
  cases hcall

/-- Calls of other hooks, and reductions that return, break nothing. -/
theorem Unbroken.more {c' : Copy σ} (h : c.Unbroken) {more : List Call}
    (hcalls : c'.calls = more ++ c.calls)
    (hmore : ∀ call ∈ more, call.stage = .reduce → call.stop? = none) : c'.Unbroken := by
  intro call hcall
  rw [hcalls] at hcall
  rcases List.mem_append.mp hcall with hcall | hcall
  · exact hmore call hcall
  · exact h call hcall

/-- A call of another hook breaks nothing. -/
theorem Unbroken.called {c' : Copy σ} {call : Call} (h : c.Unbroken)
    (hcalls : c'.calls = call :: c.calls) (hstage : call.stage ≠ .reduce) : c'.Unbroken := by
  refine h.more (List.singleton_append ▸ hcalls) ?_
  intro call' hcall' hreduce
  rw [List.mem_singleton.mp hcall'] at hreduce
  exact absurd hreduce hstage

theorem Unbroken.start (h : c.Unbroken) : c.start.2.Unbroken := h.called rfl (by simp)

theorem Unbroken.done (h : c.Unbroken) : c.done.2.Unbroken := h.called rfl (by simp)

theorem stops_of_start {stop : Stop} (h : c.start.1 = .error stop) : c.aggregator.Stops stop := by
  have hstart : c.aggregator.start c.state = (.error stop, (c.aggregator.start c.state).2) :=
    Prod.ext h rfl
  exact .start hstart

theorem stops_of_done {stop : Stop} (h : c.done.1 = .error stop) : c.aggregator.Stops stop := by
  have hdone : c.aggregator.done c.state = (.error stop, (c.aggregator.done c.state).2) :=
    Prod.ext h rfl
  exact .done hdone

end Copy

namespace Summer

variable {S : Summer σ} {c : Copy σ}

/-- What a copy makes of a batch. -/
theorem Fits.mapReduce (h : S.Fits c.aggregator) {rows : List Row} (hne : rows ≠ [])
    (hsum : Summable rows) :
    (∃ acc, (c.mapReduce rows).1 = .ok acc ∧ S.Accumulates rows acc ∧
      ∀ row ∈ rows, S.summing.Maps row) ∨
    ∃ stop, (c.mapReduce rows).1 = .error stop ∧ c.aggregator.Stops stop := by
  rcases (h.mapReduceAny hne hsum c.toTracked).1 with ⟨acc, t', hbatch, hacc⟩ | ⟨stop, t', hbatch, hstop⟩
  · exact .inl ⟨acc, congrArg Prod.fst hbatch, hacc⟩
  · exact .inr ⟨stop, congrArg Prod.fst hbatch, hstop⟩

theorem Fits.unbroken_mapReduce (h : S.Fits c.aggregator) {rows : List Row} (hne : rows ≠ [])
    (hsum : Summable rows) (hc : c.Unbroken) : (c.mapReduce rows).2.Unbroken := by
  obtain ⟨more, hcalls, hmore⟩ := (h.mapReduceAny hne hsum c.toTracked).2
  exact hc.more hcalls hmore

/-- The final reduction on a copy breaks nothing. -/
theorem IsOf.unbroken_reduce (h : S.IsOf c) {groups : List (List Row)} {accs : List Accumulator}
    (haccs : List.Forall₂ S.Accumulates groups accs) (hne : groups ≠ [])
    (hsum : Summable groups.flatten) (hc : c.Unbroken) : (c.reduce accs).2.Unbroken := by
  obtain ⟨acc, c', hreduce, -⟩ := h.reduce haccs hne hsum
  obtain ⟨more, hcalls, -, hreturned⟩ := c.aggregator.reduceAny_notes accs c.toTracked
  refine hc.more hcalls fun call hcall _ => hreturned acc ?_ call hcall
  exact congrArg Prod.fst hreduce

end Summer

end SeededRows
