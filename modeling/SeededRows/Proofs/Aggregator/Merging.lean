/-
  SeededRows.Proofs.Aggregator.Merging

  Aggregators whose accumulators can be combined in any order and any grouping. A combination may
  fail, and then every other way to combine the same accumulators fails too. So the outcome for a
  collection of rows does not depend on how the rows are permuted and cut into batches: either all
  ways succeed, with one accumulator, or none does.
-/
import Mathlib.Algebra.BigOperators.Group.List.Basic
import Mathlib.Algebra.Group.WithOne.Defs
import SeededRows.Proofs.Aggregator.Summing

namespace SeededRows

variable {σ : Type}

/-- How an aggregator combines accumulators. Those that are made from rows are valid; of any others
nothing is said. -/
structure Aggregator.Merging (a : Aggregator σ) where
  /-- The states of copies that are set up. -/
  Ready : σ → Prop
  Valid : a.output.Carrier → Prop
  /-- The accumulator of a row, for the rows that can be mapped. -/
  value : Row → Option a.output.Carrier
  /-- The combination of two accumulators, if there is one. -/
  merge : a.output.Carrier → a.output.Carrier → Option a.output.Carrier
  start_ready : ∀ {s s'}, a.start s = (.ok (), s') → Ready s'
  map_eq : ∀ {row s}, Ready s → (a.map row s).1.toOption = value row
  map_ready : ∀ {row s}, Ready s → Ready (a.map row s).2
  value_valid : ∀ {row v}, value row = some v → Valid v
  reduce_eq : ∀ {v w s}, Valid v → Valid w → (a.reduce v w s).1.toOption = merge v w
  reduce_ready : ∀ {v w s}, Ready s → Ready (a.reduce v w s).2
  merge_valid : ∀ {v w u}, Valid v → Valid w → merge v w = some u → Valid u
  comm : ∀ v w, merge v w = merge w v
  assoc : ∀ u v w, (merge u v).bind (merge · w) = (merge v w).bind (merge u ·)

namespace Aggregator.Merging

variable {a : Aggregator σ} (M : a.Merging) {rows : List Row}

/-! ## Outcomes -/

/-- What a collection of rows comes to: an accumulator, or nothing when it cannot be had. -/
def Outcome (_ : a.Merging) : Type := Option a.output.Carrier

/-- Outcomes are combined where both are there. -/
instance : AddCommSemigroup M.Outcome where
  add x y := Option.bind x fun v => Option.bind y fun w => M.merge v w
  add_assoc := by
    rintro (_ | u) (_ | v) (_ | w)
    case some.some.some => exact M.assoc u v w
    case some.some.none => exact Option.bind_fun_none (M.merge u v)
    all_goals rfl
  add_comm := by
    rintro (_ | v) (_ | w)
    case some.some => exact M.comm v w
    all_goals rfl

/-- An outcome among those of all collections; that of no rows at all is zero. -/
def outcome (o : Option a.output.Carrier) : WithZero M.Outcome := WithZero.coe (α := M.Outcome) o

theorem outcome_injective : Function.Injective M.outcome := WithZero.coe_injective

theorem some_add_some (v w : a.output.Carrier) :
    M.outcome (some v) + M.outcome (some w) = M.outcome (M.merge v w) := rfl

/-- A failure stays one. -/
theorem none_add (x : WithZero M.Outcome) : M.outcome none + x = M.outcome none := by
  cases x with
  | zero => exact add_zero _
  | coe x => rfl

theorem sum_of_none {xs : List (WithZero M.Outcome)} (h : M.outcome none ∈ xs) : xs.sum = M.outcome none := by
  obtain ⟨before, after, rfl⟩ := List.append_of_mem h
  rw [List.sum_append, List.sum_cons, add_left_comm, M.none_add]

/-- The outcome of a collection of rows. -/
def total (rows : List Row) : WithZero M.Outcome := ((rows.map M.value).map M.outcome).sum

theorem total_perm {others : List Row} (h : rows.Perm others) : M.total rows = M.total others :=
  ((h.map _).map _).sum_eq

theorem total_flatten (batches : List (List Row)) :
    M.total batches.flatten = (batches.map M.total).sum := by
  rw [total, List.map_flatten, List.map_flatten, List.sum_flatten, List.map_map, List.map_map]
  rfl

/-- Some rows come to an accumulator that is valid, or to a failure. -/
theorem exists_total (hne : rows ≠ []) :
    ∃ o, M.total rows = M.outcome o ∧ ∀ v, o = some v → M.Valid v := by
  induction rows with
  | nil => exact absurd rfl hne
  | cons row rest ih =>
    have hcons : M.total (row :: rest) = M.outcome (M.value row) + M.total rest := rfl
    by_cases hrest : rest = []
    · subst hrest
      exact ⟨M.value row, hcons.trans (add_zero _), fun v hv => M.value_valid hv⟩
    · obtain ⟨o, ho, hvalid⟩ := ih hrest
      rw [hcons, ho]
      cases hrow : M.value row with
      | none => exact ⟨none, M.none_add _, fun v hv => nomatch hv⟩
      | some v =>
        cases o with
        | none => exact ⟨none, (add_comm _ _).trans (M.none_add _), fun v hv => nomatch hv⟩
        | some w =>
          exact ⟨M.merge v w, M.some_add_some v w,
            fun u hu => M.merge_valid (M.value_valid hrow) (hvalid w rfl) hu⟩

/-! ## Folds -/

theorem reduceFrom_outcome {values : List a.output.Carrier} (hvalues : ∀ v ∈ values, M.Valid v)
    {acc : a.output.Carrier} (hacc : M.Valid acc) (t : Tracked σ) :
    M.outcome (a.reduceFrom acc values t).1.toOption =
      ((acc :: values).map fun v => M.outcome (some v)).sum := by
  induction values generalizing acc t with
  | nil => exact (add_zero _).symm
  | cons v values ih =>
    have hmerge := M.reduce_eq hacc (hvalues v List.mem_cons_self) (s := t.state)
    rcases hreduce : a.reduce acc v t.state with ⟨r, s⟩
    rw [hreduce] at hmerge
    obtain ⟨t', htracked, -⟩ := tracked_apply .reduce hreduce
    rw [List.map_cons, List.map_cons, List.sum_cons, List.sum_cons, ← add_assoc, M.some_add_some, ← hmerge]
    cases r with
    | error stop =>
      rw [reduceFrom, Hook.bind_of_error htracked]
      exact (M.none_add _).symm
    | ok u =>
      rw [reduceFrom, Hook.bind_of_ok htracked]
      have hu : M.Valid u := M.merge_valid hacc (hvalues v List.mem_cons_self) hmerge.symm
      exact ih (fun w hw => hvalues w (List.mem_cons_of_mem v hw)) hu t'

theorem reduceList_outcome {values : List a.output.Carrier} (hne : values ≠ [])
    (hvalues : ∀ v ∈ values, M.Valid v) (t : Tracked σ) :
    M.outcome (a.reduceList values t).1.toOption = (values.map fun v => M.outcome (some v)).sum := by
  cases values with
  | nil => exact absurd rfl hne
  | cons v values =>
    exact M.reduceFrom_outcome (fun w hw => hvalues w (List.mem_cons_of_mem v hw))
      (hvalues v List.mem_cons_self) t

/-- The rows of a batch are mapped one by one, or one of them cannot be. -/
theorem mapOnto_outcome (rows : List Row) (mapped : List a.output.Carrier) {t : Tracked σ} (ht : M.Ready t.state) :
    (∃ (values : List a.output.Carrier) (t' : Tracked σ), a.mapOnto mapped rows t = (.ok (values.reverse ++ mapped), t') ∧
        rows.map M.value = values.map some) ∨
      (∃ stop t', a.mapOnto mapped rows t = (.error stop, t')) ∧ none ∈ rows.map M.value := by
  induction rows generalizing mapped t with
  | nil => exact .inl ⟨[], t, rfl, rfl⟩
  | cons row rows ih =>
    have hvalue : (a.map row t.state).1.toOption = M.value row := M.map_eq ht
    have hready : M.Ready (a.map row t.state).2 := M.map_ready ht
    rcases hmap : a.map row t.state with ⟨r, s⟩
    rw [hmap] at hvalue hready
    obtain ⟨t', htracked, rfl⟩ := tracked_apply .map hmap
    rw [List.map_cons, ← hvalue]
    cases r with
    | error stop =>
      exact .inr ⟨⟨stop, t', Hook.bind_of_error htracked⟩, List.mem_cons_self⟩
    | ok v =>
      rw [mapOnto, Hook.bind_of_ok htracked]
      rcases ih (v :: mapped) hready with ⟨values, t'', hrest, hvalues⟩ | ⟨hstop, hnone⟩
      · refine .inl ⟨v :: values, t'', ?_, by rw [hvalues]; rfl⟩
        rw [hrest, List.reverse_cons, List.append_assoc]
        rfl
      · exact .inr ⟨hstop, List.mem_cons_of_mem _ hnone⟩

/-- A batch of rows gives what these rows come to. -/
theorem mapReduce_outcome (hne : rows ≠ []) {t : Tracked σ} (ht : M.Ready t.state) :
    M.outcome (a.mapReduce rows t).1.toOption = M.total rows := by
  have hstep : a.mapReduce rows t =
      (a.mapOnto [] rows >>= fun mapped => a.reduceList mapped.reverse) t := by
    cases rows with
    | nil => exact absurd rfl hne
    | cons row rows => rfl
  rw [hstep, total]
  rcases M.mapOnto_outcome rows [] ht with ⟨values, t', hmapped, hvalues⟩ | ⟨⟨stop, t', hstop⟩, hnone⟩
  · have hvalid : ∀ v ∈ values, M.Valid v := by
      intro v hv
      have hmem : some v ∈ rows.map M.value := hvalues ▸ List.mem_map_of_mem hv
      obtain ⟨row, -, hrow⟩ := List.mem_map.mp hmem
      exact M.value_valid hrow
    have hsome : values ≠ [] := by
      rintro rfl
      exact hne (List.map_eq_nil_iff.mp hvalues)
    rw [Hook.bind_of_ok hmapped, List.append_nil, List.reverse_reverse, M.reduceList_outcome hsome hvalid,
      hvalues, List.map_map]
    rfl
  · rw [Hook.bind_of_error hstop, M.sum_of_none (List.mem_map_of_mem hnone)]
    rfl

end Aggregator.Merging

/-! ## Hooks that keep a property of the state -/

namespace Hook

variable {α β : Type} {P : σ → Prop}

/-- Whatever comes of the hook, the states with a property keep it. -/
def Keeps (P : σ → Prop) (h : Hook σ α) : Prop := ∀ s, P s → P (h s).2

theorem Keeps.pure (v : α) : (pure v : Hook σ α).Keeps P := fun _ hs => hs

theorem Keeps.fail (f : Fault) : (fail f : Hook σ α).Keeps P := fun _ hs => hs

theorem Keeps.bind {h : Hook σ α} {f : α → Hook σ β} (hh : h.Keeps P) (hf : ∀ v, (f v).Keeps P) :
    (h >>= f).Keeps P := by
  intro s hs
  have hs' := hh s hs
  rcases hr : h s with ⟨stop | v, s'⟩
  · rw [hr] at hs'
    rw [bind_of_error hr]
    exact hs'
  · rw [hr] at hs'
    rw [bind_of_ok hr]
    exact hf v s' hs'

theorem Keeps.zoom {τ : Type} {get : τ → σ} {set : σ → τ → τ} (hpart : ∀ s t, get (set s t) = s) {h : Hook σ α}
    (hh : h.Keeps P) : (h.zoom get set).Keeps fun t => P (get t) := by
  intro t ht
  change P (get (set (h (get t)).2 t))
  rw [hpart]
  exact hh (get t) ht

theorem Keeps.tracked {h : Hook σ α} (hh : h.Keeps P) (stage : Stage) :
    (Aggregator.tracked stage h).Keeps fun t => P t.state :=
  fun t ht => hh t.state ht

end Hook

namespace Aggregator

variable {a : Aggregator σ} {P : σ → Prop}

theorem reduceList_keeps (hreduce : ∀ v w, (a.reduce v w).Keeps P) (values : List a.output.Carrier) :
    (a.reduceList values).Keeps fun t => P t.state := by
  have hfrom (acc : a.output.Carrier) (values : List a.output.Carrier) :
      (a.reduceFrom acc values).Keeps fun t => P t.state := by
    induction values generalizing acc with
    | nil => exact .pure acc
    | cons v values ih => exact ((hreduce acc v).tracked .reduce).bind ih
  cases values with
  | nil => exact .fail _
  | cons v values => exact hfrom v values

theorem reduceAny_keeps (hreduce : ∀ v w, (a.reduce v w).Keeps P) (accs : List Accumulator) :
    (a.reduceAny accs).Keeps fun t => P t.state := by
  rw [reduceAny]
  split
  · exact .fail _
  · exact (reduceList_keeps hreduce _).bind fun v => .pure _

theorem mapReduceAny_keeps (hmap : ∀ row, (a.map row).Keeps P) (hreduce : ∀ v w, (a.reduce v w).Keeps P)
    (rows : List Row) : (a.mapReduceAny rows).Keeps fun t => P t.state := by
  have honto (mapped : List a.output.Carrier) (rows : List Row) :
      (a.mapOnto mapped rows).Keeps fun t => P t.state := by
    induction rows generalizing mapped with
    | nil => exact .pure mapped
    | cons row rows ih => exact ((hmap row).tracked .map).bind fun v => ih (v :: mapped)
  have hreduced : (a.mapReduce rows).Keeps fun t => P t.state := by
    cases rows with
    | nil => exact .fail _
    | cons row rows => exact (honto [] _).bind fun mapped => reduceList_keeps hreduce _
  exact hreduced.bind fun v => .pure _

end Aggregator

/-! ## Copies -/

/-- A copy of an aggregator that was set up, whatever it has mapped and reduced since. -/
inductive Copy.AtWork (a : Aggregator σ) : Copy σ → Prop
  | start {c c' : Copy σ} : c.aggregator = a → c.start = (.ok (), c') → AtWork a c'
  | mapReduce {c : Copy σ} (rows : List Row) : AtWork a c → AtWork a (c.mapReduce rows).2
  | reduce {c : Copy σ} (accs : List Accumulator) : AtWork a c → AtWork a (c.reduce accs).2

/-- Copies with their batches give some accumulators. -/
def Copy.Results (work : List (Copy σ × List Row)) (accs : List Accumulator) : Prop :=
  List.Forall₂ (fun w acc => (w.1.mapReduce w.2).1 = .ok acc) work accs

namespace Aggregator.Merging

variable {a : Aggregator σ} (M : a.Merging) {rows : List Row} {c : Copy σ} {acc : Accumulator}

theorem atWork_ready (h : c.AtWork a) : c.aggregator = a ∧ M.Ready c.state := by
  induction h with
  | @start c c' ha hstart =>
    obtain ⟨⟨state, calls⟩, a'⟩ := c
    obtain rfl : a' = a := ha
    rcases hr : a'.start state with ⟨r, s⟩
    obtain ⟨t', htracked, rfl⟩ := tracked_apply .start (t := ⟨state, calls⟩) hr
    rw [Copy.start, Copy.run, htracked] at hstart
    cases hstart
    exact ⟨rfl, M.start_ready hr⟩
  | @mapReduce c rows _ ih =>
    obtain ⟨ha, hready⟩ := ih
    subst ha
    exact ⟨rfl, mapReduceAny_keeps (fun _ _ hs => M.map_ready hs) (fun _ _ _ hs => M.reduce_ready hs)
      rows c.toTracked hready⟩
  | @reduce c accs _ ih =>
    obtain ⟨ha, hready⟩ := ih
    subst ha
    exact ⟨rfl, reduceAny_keeps (fun _ _ _ hs => M.reduce_ready hs) accs c.toTracked hready⟩

/-- The accumulator that some rows come to. -/
def Comes (rows : List Row) (acc : Accumulator) : Prop :=
  ∃ v, acc = ⟨a.output, v⟩ ∧ M.total rows = M.outcome (some v)

/-- A hook that is passed on as an accumulator gives what its outcome tells. -/
theorem eq_ok_iff_outcome {h : Hook (Tracked σ) a.output.Carrier} {t : Tracked σ} :
    ((do let v ← h; return ⟨a.output, v⟩ : Hook (Tracked σ) Accumulator) t).1 = .ok acc ↔
      ∃ v, acc = ⟨a.output, v⟩ ∧ M.outcome (h t).1.toOption = M.outcome (some v) := by
  rcases hr : h t with ⟨stop | v, t'⟩
  · rw [Hook.bind_of_error hr]
    apply iff_of_false
    · rintro ⟨⟩
    · rintro ⟨v, -, hv⟩
      cases M.outcome_injective hv
  · rw [Hook.bind_of_ok hr]
    constructor
    · rintro ⟨⟩
      exact ⟨v, rfl, rfl⟩
    · rintro ⟨w, rfl, hw⟩
      cases M.outcome_injective hw
      rfl

theorem mapReduce_eq_ok_iff (h : c.AtWork a) (hne : rows ≠ []) :
    (c.mapReduce rows).1 = .ok acc ↔ M.Comes rows acc := by
  obtain ⟨ha, hready⟩ := M.atWork_ready h
  subst ha
  rw [Comes, ← M.mapReduce_outcome hne (t := c.toTracked) hready]
  exact M.eq_ok_iff_outcome

theorem reduce_eq_ok_iff (h : c.aggregator = a) {values : List a.output.Carrier} (hne : values ≠ [])
    (hvalues : ∀ v ∈ values, M.Valid v) : (c.reduce (values.map (Accumulator.mk a.output))).1 = .ok acc ↔
      ∃ v, acc = ⟨a.output, v⟩ ∧ (values.map fun v => M.outcome (some v)).sum = M.outcome (some v) := by
  subst h
  rw [Copy.reduce, Copy.run, Aggregator.reduceAny, Accumulator.allOf?_mk, ← M.reduceList_outcome hne hvalues c.toTracked]
  exact M.eq_ok_iff_outcome

/-- Batches that come to accumulators, as the sum of all rows tells. -/
theorem comes_flatten {batches : List (List Row)} {values : List a.output.Carrier}
    (h : List.Forall₂ (fun b v => M.total b = M.outcome (some v)) batches values) :
    (values.map fun v => M.outcome (some v)).sum = M.total batches.flatten := by
  rw [M.total_flatten]
  induction h with
  | nil => rfl
  | cons hv _ ih => rw [List.map_cons, List.map_cons, List.sum_cons, List.sum_cons, hv, ih]

/-- Where all rows together come to an accumulator, each batch does. -/
theorem exists_values {batches : List (List Row)} (hne : ∀ b ∈ batches, b ≠ []) {v : a.output.Carrier}
    (h : M.total batches.flatten = M.outcome (some v)) :
    ∃ values, List.Forall₂ (fun b v => M.total b = M.outcome (some v)) batches values := by
  have heach : ∀ b ∈ batches, ∃ v, M.total b = M.outcome (some v) := by
    intro b hb
    obtain ⟨o, ho, -⟩ := M.exists_total (hne b hb)
    cases o with
    | some v => exact ⟨v, ho⟩
    | none =>
      -- a batch that fails would let all rows fail
      rw [M.total_flatten, M.sum_of_none (ho ▸ List.mem_map_of_mem hb)] at h
      cases M.outcome_injective h
  clear h
  induction batches with
  | nil => exact ⟨[], .nil⟩
  | cons b batches ih =>
    obtain ⟨w, hw⟩ := heach b List.mem_cons_self
    obtain ⟨values, hvalues⟩ := ih (fun b' hb' => hne b' (List.mem_cons_of_mem b hb'))
      (fun b' hb' => heach b' (List.mem_cons_of_mem b hb'))
    exact ⟨w :: values, .cons hw hvalues⟩

theorem results_iff {work : List (Copy σ × List Row)} (hbatches : ∀ w ∈ work, w.2 ≠ [])
    (hwork : ∀ w ∈ work, w.1.AtWork a) {accs : List Accumulator} :
    Copy.Results work accs ↔ ∃ values, accs = values.map (Accumulator.mk a.output) ∧
      List.Forall₂ (fun b v => M.total b = M.outcome (some v)) (work.map Prod.snd) values := by
  induction work generalizing accs with
  | nil =>
    constructor
    · rintro ⟨⟩
      exact ⟨[], rfl, .nil⟩
    · rintro ⟨values, rfl, ⟨⟩⟩
      exact .nil
  | cons w work ih =>
    have hbatch {acc : Accumulator} : (w.1.mapReduce w.2).1 = .ok acc ↔ M.Comes w.2 acc :=
      M.mapReduce_eq_ok_iff (hwork w List.mem_cons_self) (hbatches w List.mem_cons_self)
    rw [List.forall_mem_cons] at hbatches hwork
    have hrest {accs : List Accumulator} : Copy.Results work accs ↔
        ∃ values, accs = values.map (Accumulator.mk a.output) ∧
          List.Forall₂ (fun b v => M.total b = M.outcome (some v)) (work.map Prod.snd) values :=
      ih hbatches.2 hwork.2
    constructor
    · rintro (_ | ⟨hacc, haccs⟩)
      obtain ⟨v, rfl, hv⟩ := hbatch.mp hacc
      obtain ⟨values, rfl, hvalues⟩ := hrest.mp haccs
      exact ⟨v :: values, rfl, .cons hv hvalues⟩
    · rintro ⟨values, rfl, hall⟩
      cases hall with
      | cons hv hvalues => exact .cons (hbatch.mpr ⟨_, rfl, hv⟩) (hrest.mpr ⟨_, rfl, hvalues⟩)

include M in
/-- However rows are permuted, cut into batches and given to copies, folding what comes of the batches
is the same as mapping all rows in one batch. -/
theorem grouping {work : List (Copy σ × List Row)} {whole final : Copy σ} (hne : rows ≠ [])
    (hperm : (work.map Prod.snd).flatten.Perm rows) (hbatches : ∀ w ∈ work, w.2 ≠ [])
    (hwork : ∀ w ∈ work, w.1.AtWork a) (hwhole : whole.AtWork a) (hfinal : final.aggregator = a) :
    (∃ accs, Copy.Results work accs ∧ (final.reduce accs).1 = .ok acc) ↔
      (whole.mapReduce rows).1 = .ok acc := by
  have hbatches' : ∀ b ∈ work.map Prod.snd, b ≠ [] := by
    rintro b hb
    obtain ⟨w, hw, rfl⟩ := List.mem_map.mp hb
    exact hbatches w hw
  -- Both sides ask what the rows come to, once cut into batches and once as they are.
  have hreduce {values : List a.output.Carrier}
      (hvalues : List.Forall₂ (fun b v => M.total b = M.outcome (some v)) (work.map Prod.snd) values) :
      (final.reduce (values.map (Accumulator.mk a.output))).1 = .ok acc ↔ M.Comes rows acc := by
    have hsome : values ≠ [] := by
      rintro rfl
      have hnone : work.map Prod.snd = [] := List.forall₂_nil_right_iff.mp hvalues
      rw [hnone] at hperm
      exact hne hperm.nil_eq.symm
    have hvalid : ∀ v ∈ values, M.Valid v := by
      intro v hv
      obtain ⟨i, hi, rfl⟩ := List.mem_iff_getElem.mp hv
      have hb := (List.forall₂_iff_get.mp hvalues).2 i (by rw [hvalues.length_eq]; exact hi) hi
      obtain ⟨o, ho, hvalid⟩ := M.exists_total (hbatches' _ (List.get_mem _ _))
      exact hvalid _ (M.outcome_injective (ho.symm.trans hb))
    rw [M.reduce_eq_ok_iff hfinal hsome hvalid, M.comes_flatten hvalues, M.total_perm hperm, Comes]
  rw [M.mapReduce_eq_ok_iff hwhole hne]
  constructor
  · rintro ⟨accs, hresults, hfinal'⟩
    obtain ⟨values, rfl, hvalues⟩ := (M.results_iff hbatches hwork).mp hresults
    exact (hreduce hvalues).mp hfinal'
  · intro hcomes
    have ⟨v, _, hv⟩ := hcomes
    obtain ⟨values, hvalues⟩ := M.exists_values hbatches' ((M.total_perm hperm).trans hv)
    exact ⟨_, (M.results_iff hbatches hwork).mpr ⟨values, rfl, hvalues⟩, (hreduce hvalues).mpr hcomes⟩

end Aggregator.Merging

end SeededRows
