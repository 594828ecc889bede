/-
  SeededRows.Proofs.Aggregator.Summing

  Aggregators that sum rows. Such an aggregator either can map a row or cannot, whatever it has
  seen before; its accumulators stand for collections of rows, and combining two of them stands
  for both collections together. Its accumulators of the same rows, in whatever order the rows
  come and however they are grouped, are then the same. Collections have no row twice, and no
  more rows than can be counted.
-/
import Mathlib.Data.List.Basic
import Mathlib.Data.List.Perm.Basic
import SeededRows.Aggregator.Basic

namespace SeededRows

variable {σ : Type}

/-! ## Hooks step by step -/

namespace Hook

variable {α β : Type}

theorem bind_of_ok {x : Hook σ α} {f : α → Hook σ β} {s s' : σ} {a : α} (h : x s = (.ok a, s')) :
    (x >>= f) s = f a s' := by
  show (StateT.bind x (ExceptT.bindCont f)) s = _
  rw [StateT.bind, h]
  rfl

theorem bind_of_error {x : Hook σ α} {f : α → Hook σ β} {s s' : σ} {stop : Stop}
    (h : x s = (.error stop, s')) : (x >>= f) s = (.error stop, s') := by
  show (StateT.bind x (ExceptT.bindCont f)) s = _
  rw [StateT.bind, h]
  rfl

end Hook

/-- Rows that can be summed: no id comes twice, and they can be counted. -/
structure Summable (rows : List Row) : Prop where
  distinct : (rows.map Row.id).Nodup
  countable : rows.length < UInt64.size

theorem Summable.sublist {rows more : List Row} (h : Summable more) (hsub : rows.Sublist more) :
    Summable rows :=
  ⟨h.distinct.sublist (hsub.map _), Nat.lt_of_le_of_lt hsub.length_le h.countable⟩

theorem Summable.perm {rows others : List Row} (h : Summable rows) (hperm : rows.Perm others) :
    Summable others :=
  ⟨(hperm.map _).nodup_iff.mp h.distinct, hperm.length_eq ▸ h.countable⟩

/-- How an aggregator sums rows. -/
structure Aggregator.Summing (a : Aggregator σ) where
  /-- The states of copies that are set up. -/
  Ready : σ → Prop
  /-- The rows that can be mapped. -/
  Maps : Row → Prop
  /-- The accumulators of a collection of rows. -/
  Sums : List Row → a.output.Carrier → Prop
  start_ready : ∀ {s s'}, a.start s = (.ok (), s') → Ready s'
  /-- Whether a copy can be set up does not depend on the copy. -/
  start_free : ∀ s s', (a.start s).1 = (a.start s').1
  map_ok : ∀ {row s}, Ready s → Maps row →
    ∃ v s', a.map row s = (.ok v, s') ∧ Ready s' ∧ Sums [row] v
  map_error : ∀ {row s}, Ready s → ¬ Maps row → ∃ stop s', a.map row s = (.error stop, s')
  reduce_ok : ∀ {xs ys v w}, Sums xs v → Sums ys w → Summable (xs ++ ys) →
    ∃ u, (∀ s, a.reduce v w s = (.ok u, s)) ∧ Sums (xs ++ ys) u
  unique : ∀ {xs ys v w}, xs.Perm ys → Sums xs v → Sums ys w → v = w
  done_ok : ∀ s, (a.done s).1 = .ok ()

namespace Aggregator

variable {a : Aggregator σ} (S : a.Summing)

/-- What a hook gave is given on, and the call is noted. -/
theorem tracked_of_eq {α : Type} (stage : Stage) {h : Hook σ α} {t : Tracked σ} {r : Except Stop α}
    {s : σ} (hr : h t.state = (r, s)) :
    tracked stage h t = (r, ⟨s, ⟨stage, Stop.of? r⟩ :: t.calls⟩) := by
  rw [tracked, hr]

theorem tracked_apply {α : Type} (stage : Stage) {h : Hook σ α} {t : Tracked σ} {r : Except Stop α}
    {s : σ} (hr : h t.state = (r, s)) : ∃ t', tracked stage h t = (r, t') ∧ t'.state = s :=
  ⟨_, tracked_of_eq stage hr, rfl⟩

/-- What a copy that is set up makes of a row. -/
theorem Summing.of_map {row : Row} {s s' : σ} {v : a.output.Carrier} (hs : S.Ready s)
    (h : a.map row s = (.ok v, s')) : S.Maps row ∧ S.Sums [row] v := by
  by_cases hrow : S.Maps row
  · obtain ⟨v', t, hmap, -, hv⟩ := S.map_ok hs hrow
    cases hmap.symm.trans h
    exact ⟨hrow, hv⟩
  · obtain ⟨stop, t, hmap⟩ := S.map_error hs hrow
    cases hmap.symm.trans h

/-! ## Folds -/

/-- Accumulators of groups of rows fold into one of all these rows. -/
theorem Summing.reduceFrom {groups : List (List Row)} {values : List a.output.Carrier}
    (h : List.Forall₂ S.Sums groups values) {xs : List Row} {acc : a.output.Carrier}
    (hacc : S.Sums xs acc) (hsum : Summable (xs ++ groups.flatten)) (t : Tracked σ) :
    ∃ u t', a.reduceFrom acc values t = (.ok u, t') ∧ t'.state = t.state ∧
      S.Sums (xs ++ groups.flatten) u := by
  induction h generalizing xs acc t with
  | nil => exact ⟨acc, t, rfl, rfl, by simpa using hacc⟩
  | @cons group v groups values hv _ ih =>
    -- what was folded so far stands for the groups so far
    rw [List.flatten_cons, ← List.append_assoc] at hsum ⊢
    obtain ⟨u, hreduce, hu⟩ :=
      S.reduce_ok hacc hv (hsum.sublist (List.sublist_append_left _ _))
    obtain ⟨t', htracked, hstate⟩ := tracked_apply .reduce (hreduce t.state)
    obtain ⟨u', t'', hfold, hstate', hu'⟩ := ih hu hsum t'
    refine ⟨u', t'', ?_, hstate'.trans hstate, hu'⟩
    rw [Aggregator.reduceFrom, Hook.bind_of_ok htracked]
    exact hfold

theorem Summing.reduceList {groups : List (List Row)} {values : List a.output.Carrier}
    (h : List.Forall₂ S.Sums groups values) (hne : groups ≠ []) (hsum : Summable groups.flatten)
    (t : Tracked σ) : ∃ u t', a.reduceList values t = (.ok u, t') ∧ t'.state = t.state ∧
      S.Sums groups.flatten u := by
  cases h with
  | nil => exact absurd rfl hne
  | cons hv hrest => exact S.reduceFrom hrest hv hsum t

/-! ## Batches -/

theorem Summing.mapOnto_ok {rows : List Row} (hmaps : ∀ row ∈ rows, S.Maps row)
    (mapped : List a.output.Carrier) {t : Tracked σ} (ht : S.Ready t.state) :
    ∃ values t', a.mapOnto mapped rows t = (.ok (values.reverse ++ mapped), t') ∧
      S.Ready t'.state ∧ List.Forall₂ S.Sums (rows.map ([·])) values := by
  induction rows generalizing mapped t with
  | nil => exact ⟨[], t, rfl, ht, .nil⟩
  | cons row rows ih =>
    obtain ⟨v, s, hmap, hs, hv⟩ := S.map_ok ht (hmaps row List.mem_cons_self)
    obtain ⟨t', htracked, rfl⟩ := tracked_apply .map hmap
    obtain ⟨values, t'', hrest, ht'', hvalues⟩ :=
      ih (fun r hr => hmaps r (List.mem_cons_of_mem row hr)) (v :: mapped) hs
    refine ⟨v :: values, t'', ?_, ht'', .cons hv hvalues⟩
    rw [mapOnto, Hook.bind_of_ok htracked, hrest, List.reverse_cons, List.append_assoc]
    rfl

theorem Summing.mapOnto_error {rows : List Row} (hmaps : ¬ ∀ row ∈ rows, S.Maps row)
    (mapped : List a.output.Carrier) {t : Tracked σ} (ht : S.Ready t.state) :
    ∃ stop t', a.mapOnto mapped rows t = (.error stop, t') := by
  induction rows generalizing mapped t with
  | nil => exact absurd (fun row hrow => nomatch hrow) hmaps
  | cons row rows ih =>
    by_cases hrow : S.Maps row
    · -- the row that cannot be mapped is a later one
      obtain ⟨v, s, hmap, hs, -⟩ := S.map_ok ht hrow
      obtain ⟨t', htracked, rfl⟩ := tracked_apply .map hmap
      have hrest : ¬ ∀ r ∈ rows, S.Maps r := by
        intro hall
        refine hmaps fun r hr => ?_
        rcases List.mem_cons.mp hr with rfl | hr
        · exact hrow
        · exact hall r hr
      obtain ⟨stop, t'', hmapped⟩ := ih hrest (v :: mapped) hs
      exact ⟨stop, t'', (Hook.bind_of_ok htracked).trans hmapped⟩
    · obtain ⟨stop, s, hmap⟩ := S.map_error ht hrow
      obtain ⟨t', htracked, -⟩ := tracked_apply .map hmap
      exact ⟨stop, t', Hook.bind_of_error htracked⟩

/-- A batch that can be mapped row by row gives an accumulator of its rows. -/
theorem Summing.mapReduce_ok {rows : List Row} (hne : rows ≠ []) (hmaps : ∀ row ∈ rows, S.Maps row)
    (hsum : Summable rows) {t : Tracked σ} (ht : S.Ready t.state) :
    ∃ v t', a.mapReduce rows t = (.ok v, t') ∧ S.Ready t'.state ∧ S.Sums rows v := by
  -- each row is a group of its own
  obtain ⟨values, t', hmapped, ht', hvalues⟩ := S.mapOnto_ok hmaps [] ht
  have hflat : (rows.map ([·])).flatten = rows := by
    rw [← List.flatMap_def, List.flatMap_singleton']
  obtain ⟨v, t'', hreduce, hstate, hv⟩ :=
    S.reduceList hvalues (by simpa using hne) (hflat.symm ▸ hsum) t'
  rw [hflat] at hv
  refine ⟨v, t'', ?_, hstate ▸ ht', hv⟩
  have hstep : a.mapReduce rows t =
      (a.mapOnto [] rows >>= fun mapped => a.reduceList mapped.reverse) t := by
    cases rows with
    | nil => exact absurd rfl hne
    | cons row rows => rfl
  rw [hstep, Hook.bind_of_ok hmapped, List.append_nil, List.reverse_reverse]
  exact hreduce

theorem Summing.mapReduce_error {rows : List Row} (hmaps : ¬ ∀ row ∈ rows, S.Maps row)
    {t : Tracked σ} (ht : S.Ready t.state) : ∃ stop t', a.mapReduce rows t = (.error stop, t') := by
  obtain ⟨stop, t', hmapped⟩ := S.mapOnto_error hmaps [] ht
  cases rows with
  | nil => exact absurd (fun row hrow => nomatch hrow) hmaps
  | cons row rows => exact ⟨stop, t', Hook.bind_of_error hmapped⟩

end Aggregator

/-! ## Copies -/

/-- An aggregator with the way in which it sums rows. -/
structure Summer (σ : Type) where
  aggregator : Aggregator σ
  summing : aggregator.Summing

namespace Summer

variable (S : Summer σ)

/-- An accumulator of a collection of rows. -/
def Accumulates (rows : List Row) (acc : Accumulator) : Prop :=
  ∃ v, acc = ⟨S.aggregator.output, v⟩ ∧ S.summing.Sums rows v

/-- A copy of the aggregator. -/
def IsOf (c : Copy σ) : Prop := c.aggregator = S.aggregator

/-- A copy of the aggregator that is set up. -/
structure ReadyCopy (c : Copy σ) : Prop where
  isOf : S.IsOf c
  ready : S.summing.Ready c.state

variable {S}

theorem Accumulates.unique {rows others : List Row} {acc acc' : Accumulator}
    (h : S.Accumulates rows acc) (h' : S.Accumulates others acc') (hperm : rows.Perm others) :
    acc = acc' := by
  obtain ⟨v, rfl, hv⟩ := h
  obtain ⟨w, rfl, hw⟩ := h'
  rw [S.summing.unique hperm hv hw]

theorem IsOf.clone {c : Copy σ} (h : S.IsOf c) : S.IsOf c.clone := h

theorem IsOf.start {c c' : Copy σ} (h : S.IsOf c) (hs : c.start = (.ok (), c')) :
    S.ReadyCopy c' := by
  obtain ⟨⟨state, calls⟩, a⟩ := c
  obtain rfl : a = S.aggregator := h
  rcases hr : S.aggregator.start state with ⟨r, s⟩
  obtain ⟨t', htracked, rfl⟩ :=
    Aggregator.tracked_apply .start (t := ⟨state, calls⟩) hr
  rw [Copy.start, Copy.run, htracked] at hs
  cases hs
  exact ⟨rfl, S.summing.start_ready hr⟩

/-- Whether a copy can be set up is a matter of the aggregator. -/
theorem IsOf.start_free {c c' : Copy σ} (h : S.IsOf c) (h' : S.IsOf c') :
    c.start.1 = c'.start.1 := by
  obtain ⟨⟨state, calls⟩, a⟩ := c
  obtain ⟨⟨state', calls'⟩, a'⟩ := c'
  obtain rfl : a = S.aggregator := h
  obtain rfl : a' = S.aggregator := h'
  exact S.summing.start_free state state'

theorem IsOf.done {c : Copy σ} (h : S.IsOf c) : c.done.1 = .ok () := by
  obtain ⟨⟨state, calls⟩, a⟩ := c
  obtain rfl : a = S.aggregator := h
  exact S.summing.done_ok state

theorem ReadyCopy.mapReduce_ok {c : Copy σ} (h : S.ReadyCopy c) {rows : List Row} (hne : rows ≠ [])
    (hmaps : ∀ row ∈ rows, S.summing.Maps row) (hsum : Summable rows) :
    ∃ acc c', c.mapReduce rows = (.ok acc, c') ∧ S.Accumulates rows acc ∧ S.ReadyCopy c' := by
  obtain ⟨⟨state, calls⟩, a⟩ := c
  obtain rfl : a = S.aggregator := h.isOf
  obtain ⟨v, t', hmap, hready, hv⟩ :=
    S.summing.mapReduce_ok hne hmaps hsum (t := ⟨state, calls⟩) h.ready
  refine ⟨⟨S.aggregator.output, v⟩, ⟨t', S.aggregator⟩, ?_, ⟨v, rfl, hv⟩, ⟨rfl, hready⟩⟩
  rw [Copy.mapReduce, Copy.run, Aggregator.mapReduceAny, Hook.bind_of_ok hmap]
  rfl

theorem ReadyCopy.mapReduce_error {c : Copy σ} (h : S.ReadyCopy c) {rows : List Row}
    (hmaps : ¬ ∀ row ∈ rows, S.summing.Maps row) :
    ∃ stop c', c.mapReduce rows = (.error stop, c') := by
  obtain ⟨⟨state, calls⟩, a⟩ := c
  obtain rfl : a = S.aggregator := h.isOf
  obtain ⟨stop, t', hmap⟩ := S.summing.mapReduce_error hmaps (t := ⟨state, calls⟩) h.ready
  refine ⟨stop, ⟨t', S.aggregator⟩, ?_⟩
  rw [Copy.mapReduce, Copy.run, Aggregator.mapReduceAny, Hook.bind_of_error hmap]

theorem allOf?_accumulates {groups : List (List Row)} {accs : List Accumulator}
    (h : List.Forall₂ S.Accumulates groups accs) : ∃ values,
    Accumulator.allOf? S.aggregator.output accs = some values ∧
      List.Forall₂ S.summing.Sums groups values := by
  induction h with
  | nil => exact ⟨[], rfl, .nil⟩
  | cons hv _ ih =>
    obtain ⟨v, rfl, hv⟩ := hv
    obtain ⟨values, hall, hvalues⟩ := ih
    refine ⟨v :: values, ?_, .cons hv hvalues⟩
    rw [Accumulator.allOf?_eq_some_iff.mp hall]
    exact Accumulator.allOf?_mk _ (v :: values)

/-- Accumulators of groups of rows fold into one of all these rows. -/
theorem IsOf.reduce {c : Copy σ} (h : S.IsOf c) {groups : List (List Row)} {accs : List Accumulator}
    (haccs : List.Forall₂ S.Accumulates groups accs) (hne : groups ≠ [])
    (hsum : Summable groups.flatten) :
    ∃ acc c', c.reduce accs = (.ok acc, c') ∧ S.Accumulates groups.flatten acc ∧
      c'.aggregator = c.aggregator := by
  obtain ⟨⟨state, calls⟩, a⟩ := c
  obtain rfl : a = S.aggregator := h
  obtain ⟨values, hall, hvalues⟩ := allOf?_accumulates haccs
  obtain ⟨v, t', hreduce, -, hv⟩ := S.summing.reduceList hvalues hne hsum ⟨state, calls⟩
  refine ⟨⟨S.aggregator.output, v⟩, ⟨t', S.aggregator⟩, ?_, ⟨v, rfl, hv⟩, rfl⟩
  rw [Copy.reduce, Copy.run, Aggregator.reduceAny, hall]
  dsimp only
  rw [Hook.bind_of_ok hreduce]
  rfl

end Summer

end SeededRows
