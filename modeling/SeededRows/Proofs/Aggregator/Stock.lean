/-
  SeededRows.Proofs.Aggregator.Stock

  The stock aggregators sum rows. A count is the number of rows, a histogram holds how often each
  cell text occurs, collected rows and sets of ids hold what is to be kept of each row. That the
  ids of the rows differ is what keeps a collector from refusing a row, that the rows can be
  counted is what keeps a count from overflowing.
-/
import SeededRows.Aggregator.Spec
import SeededRows.Proofs.Aggregator.Reductions

namespace SeededRows

variable {σ : Type}

open Std (ExtTreeMap ExtTreeSet)

/-! ## Fields of rows -/

/-- The values of fields, if the row has them all. -/
def Row.values? (row : Row) (fields : List String) : Option (List Value) := fields.mapM row.value?

theorem Row.values?_cons (row : Row) (field : String) (fields : List String) :
    row.values? (field :: fields) =
      (row.value? field).bind fun v => (row.values? fields).map (v :: ·) := by
  rw [values?, List.mapM_cons, values?]
  cases row.value? field with
  | none => rfl
  | some v => cases fields.mapM row.value? <;> rfl

namespace Aggregator

theorem fieldOf_some {aggregator field : String} {row : Row} {v : Value}
    (h : row.value? field = some v) (s : σ) : fieldOf aggregator field row s = (.ok v, s) := by
  rw [fieldOf, h]
  rfl

theorem fieldOf_none {aggregator field : String} {row : Row} (h : row.value? field = none) (s : σ) :
    fieldOf (σ := σ) aggregator field row s = (.error (.fault (lacksField aggregator field row)), s) := by
  rw [fieldOf, h]
  rfl

theorem fieldsOf_cons (aggregator field : String) (fields : List String) (row : Row) :
    fieldsOf (σ := σ) aggregator (field :: fields) row = do
      let v ← fieldOf aggregator field row
      let vs ← fieldsOf aggregator fields row
      return v :: vs :=
  List.mapM_cons

theorem fieldsOf_some {aggregator : String} {fields : List String} {row : Row} {vs : List Value}
    (h : row.values? fields = some vs) (s : σ) : fieldsOf aggregator fields row s = (.ok vs, s) := by
  induction fields generalizing vs with
  | nil =>
    cases h
    rfl
  | cons field fields ih =>
    rw [Row.values?_cons] at h
    obtain ⟨v, hv, h⟩ := Option.bind_eq_some_iff.mp h
    obtain ⟨rest, hrest, rfl⟩ := Option.map_eq_some_iff.mp h
    rw [fieldsOf_cons, Hook.bind_of_ok (fieldOf_some hv s)]
    exact Hook.bind_of_ok (ih hrest)

theorem fieldsOf_none (aggregator : String) {fields : List String} {row : Row}
    (h : row.values? fields = none) (s : σ) : ∃ field,
      fieldsOf (σ := σ) aggregator fields row s =
        (.error (.fault (lacksField aggregator field row)), s) := by
  induction fields with
  | nil => cases h
  | cons field fields ih =>
    rw [Row.values?_cons] at h
    rw [fieldsOf_cons]
    cases hv : row.value? field with
    | none => exact ⟨field, Hook.bind_of_error (fieldOf_none hv s)⟩
    | some v =>
      rw [hv, Option.bind_some, Option.map_eq_none_iff] at h
      obtain ⟨missing, hstop⟩ := ih h
      rw [Hook.bind_of_ok (fieldOf_some hv s)]
      exact ⟨missing, Hook.bind_of_error hstop⟩

theorem fieldOf_stop {aggregator field : String} {row : Row} {s s' : σ} {stop : Stop}
    (h : fieldOf aggregator field row s = (.error stop, s')) :
    stop = .fault (lacksField aggregator field row) := by
  cases hv : row.value? field with
  | none =>
    rw [fieldOf_none hv] at h
    cases h
    rfl
  | some v =>
    rw [fieldOf_some hv] at h
    cases h

theorem fieldsOf_stop {aggregator : String} {fields : List String} {row : Row} {s s' : σ} {stop : Stop}
    (h : fieldsOf aggregator fields row s = (.error stop, s')) :
    ∃ field, stop = .fault (lacksField aggregator field row) := by
  cases hvs : row.values? fields with
  | none =>
    obtain ⟨field, hstop⟩ := fieldsOf_none aggregator hvs s
    rw [hstop] at h
    cases h
    exact ⟨field, rfl⟩
  | some vs =>
    rw [fieldsOf_some hvs] at h
    cases h

/-! ## Counts -/

theorem addCounts_apply {m n : Nat} (h : m + n < UInt64.size) (s : σ) :
    Hook.addCounts m n s = (.ok (m + n), s) := by
  rw [Hook.addCounts, if_pos h]
  rfl

/-- Counting rows. -/
def countSumming (σ : Type) : (count σ).Summing where
  Ready _ := True
  Maps _ := True
  Sums rows := fun n : Nat => n = rows.length
  start_ready _ := trivial
  start_free _ _ := rfl
  map_ok {row s} _ _ := ⟨(1 : Nat), s, rfl, trivial, rfl⟩
  map_error _ h := absurd trivial h
  reduce_ok {xs ys} {v w : Nat} hv hw hsum := by
    have hlen : v + w = (xs ++ ys).length := by rw [List.length_append, hv, hw]
    exact ⟨(v + w : Nat), addCounts_apply (hlen ▸ hsum.countable), hlen⟩
  unique hperm hv hw := hv.trans (hperm.length_eq.trans hw.symm)
  done_ok _ := rfl

theorem openCsv_ready {disk : Disk} {target : CsvTarget} {fields : List String} {s s' : CsvFiles}
    (h : openCsv disk target fields s = (.ok (), s')) : s'.current.isSome := by
  rw [openCsv] at h
  cases hp : target.problem? disk with
  | some problem =>
    rw [hp] at h
    cases h
  | none =>
    rw [hp] at h
    cases h
    rfl

theorem writeRow_ok {fields : List String} {row : Row} {vs : List Value} {s : CsvFiles}
    (hs : s.current.isSome) (hvs : row.values? fields = some vs) :
    ∃ s', writeRow fields row s = (.ok 1, s') ∧ s'.current.isSome := by
  obtain ⟨file, hfile⟩ := Option.isSome_iff_exists.mp hs
  have happend : s.append? (vs.map (·.cell)) =
      some { s with current := some { file with records := vs.map (·.cell) :: file.records } } := by
    rw [CsvFiles.append?, hfile]
    rfl
  have hget : (get : Hook CsvFiles CsvFiles) s = (.ok s, s) := rfl
  rw [writeRow, Hook.bind_of_ok (fieldsOf_some hvs s), Hook.bind_of_ok hget, happend]
  exact ⟨_, rfl, rfl⟩

/-- A row is written only to a file that was made. -/
theorem writeRow_ready {fields : List String} {row : Row} {n : Nat} {s s' : CsvFiles}
    (h : writeRow fields row s = (.ok n, s')) : s.current.isSome := by
  rw [writeRow] at h
  cases hvs : row.values? fields with
  | none =>
    obtain ⟨field, hstop⟩ := fieldsOf_none csvName hvs s
    rw [Hook.bind_of_error hstop] at h
    cases h
  | some vs =>
    have hget : (get : Hook CsvFiles CsvFiles) s = (.ok s, s) := rfl
    rw [Hook.bind_of_ok (fieldsOf_some hvs s), Hook.bind_of_ok hget] at h
    cases hs : s.current with
    | some file => rfl
    | none =>
      have happend : s.append? (vs.map (·.cell)) = none := by rw [CsvFiles.append?, hs]; rfl
      rw [happend] at h
      cases h

/-- Writing rows to a file. -/
def csvSumming (disk : Disk) (target : CsvTarget) (fields : List String) :
    (csvRows disk target fields).Summing where
  Ready s := s.current.isSome
  Maps row := ∃ vs, row.values? fields = some vs
  Sums rows := fun n : Nat => n = rows.length
  start_ready h := openCsv_ready h
  start_free s s' := by
    show (openCsv disk target fields s).1 = (openCsv disk target fields s').1
    rw [openCsv]
    cases target.problem? disk <;> rfl
  map_ok {row s} hs h := by
    obtain ⟨vs, hvs⟩ := h
    obtain ⟨s', hwrite, hs'⟩ := writeRow_ok hs hvs
    exact ⟨(1 : Nat), s', hwrite, hs', rfl⟩
  map_error {row s} _ h := by
    have hnone : row.values? fields = none :=
      Option.eq_none_iff_forall_ne_some.mpr fun vs hvs => h ⟨vs, hvs⟩
    obtain ⟨field, hstop⟩ := fieldsOf_none csvName hnone s
    exact ⟨_, s, Hook.bind_of_error hstop⟩
  reduce_ok {xs ys} {v w : Nat} hv hw hsum := by
    have hlen : v + w = (xs ++ ys).length := by rw [List.length_append, hv, hw]
    exact ⟨(v + w : Nat), addCounts_apply (hlen ▸ hsum.countable), hlen⟩
  unique hperm hv hw := hv.trans (hperm.length_eq.trans hw.symm)
  done_ok _ := rfl

/-! ## Maps -/

/-- The keys of a map are listed once each. -/
theorem keys_toList_nodup {α β : Type} {cmp : α → α → Ordering} [Std.TransCmp cmp]
    (m : ExtTreeMap α β cmp) : (m.toList.map Prod.fst).Nodup := by
  rw [ExtTreeMap.map_fst_toList_eq_keys]
  exact ExtTreeMap.nodup_keys

section Maps

variable {α β : Type} {cmp : α → α → Ordering} [Std.TransCmp cmp] [Std.LawfulEqCmp cmp]

theorem getElem?_insert_ite [DecidableEq α] (m : ExtTreeMap α β cmp) (k a : α) (v : β) :
    (m.insert k v)[a]? = if k = a then some v else m[a]? := by
  rw [ExtTreeMap.getElem?_insert]
  exact if_congr Std.LawfulEqCmp.compare_eq_iff_eq rfl rfl

end Maps

/-! ## Collected rows -/

/-- Rows that a table does not have are added to it. -/
theorem addAll_rows {more : List (UInt64 × List Value)} {table : RowTable}
    (hdistinct : (more.map Prod.fst).Nodup) (hnew : ∀ e ∈ more, table[e.1]? = none) :
    ∃ sum : RowTable, (∀ s : σ, table.addAll more s = (.ok sum, s)) ∧
      ∀ id vs, sum[id]? = some vs ↔ table[id]? = some vs ∨ (id, vs) ∈ more := by
  induction more generalizing table with
  | nil => exact ⟨table, fun _ => rfl, by simp⟩
  | cons e more ih =>
    obtain ⟨id, values⟩ := e
    rw [List.map_cons, List.nodup_cons] at hdistinct
    have habsent : table[id]? = none := hnew _ List.mem_cons_self
    have hother {vs : List Value} : (id, vs) ∉ more := fun hmem =>
      hdistinct.1 (List.mem_map.mpr ⟨_, hmem, rfl⟩)
    -- the row that is added is none of those that follow
    have hnew' : ∀ e ∈ more, (table.insert id values)[e.1]? = none := by
      rintro ⟨k, vs⟩ he
      rw [getElem?_insert_ite, if_neg]
      · exact hnew _ (List.mem_cons_of_mem _ he)
      · rintro rfl
        exact hother he
    obtain ⟨sum, hadd, hsum⟩ := ih hdistinct.2 hnew'
    refine ⟨sum, ?_, ?_⟩
    · intro s
      rw [RowTable.addAll, ExtTreeMap.contains_eq_isSome_getElem?, habsent]
      exact hadd s
    · intro k vs
      rw [hsum, getElem?_insert_ite, List.mem_cons, Prod.mk.injEq]
      by_cases hk : id = k
      · subst hk
        rw [if_pos rfl, habsent, Option.some_inj]
        simp only [hother, or_false, reduceCtorEq, true_and, false_or]
        exact eq_comm
      · rw [if_neg hk]
        simp only [Ne.symm hk, false_and, false_or]

/-- Collecting the values of fields. -/
def collectSumming (σ : Type) (fields : List String) : (collect σ fields).Summing where
  Ready _ := True
  Maps row := ∃ vs, row.values? fields = some vs
  Sums rows := fun table : RowTable =>
    ∀ id vs, table[id]? = some vs ↔ ∃ row ∈ rows, row.id = id ∧ row.values? fields = some vs
  start_ready _ := trivial
  start_free _ _ := rfl
  map_ok {row s} _ h := by
    obtain ⟨vs, hvs⟩ := h
    refine ⟨(ExtTreeMap.empty.insert row.id vs : RowTable), s,
      Hook.bind_of_ok (fieldsOf_some hvs s), trivial, ?_⟩
    intro id vs'
    show (ExtTreeMap.empty.insert row.id vs : RowTable)[id]? = some vs' ↔ _
    rw [getElem?_insert_ite]
    by_cases hid : row.id = id
    · simp [hid, hvs]
    · rw [if_neg hid]
      simp only [List.mem_singleton, exists_eq_left, hid, false_and, iff_false]
      exact fun hnone => nomatch hnone
  map_error {row s} _ h := by
    have hnone : row.values? fields = none :=
      Option.eq_none_iff_forall_ne_some.mpr fun vs hvs => h ⟨vs, hvs⟩
    obtain ⟨field, hstop⟩ := fieldsOf_none collectName hnone s
    exact ⟨_, s, Hook.bind_of_error hstop⟩
  reduce_ok {xs ys} {table more : RowTable} htable hmore hsum := by
    have hnew (e : UInt64 × List Value) (he : e ∈ more.toList) : table[e.1]? = none := by
      obtain ⟨row, hrow, hid, -⟩ :=
        (hmore e.1 e.2).mp (ExtTreeMap.mem_toList_iff_getElem?_eq_some.mp he)
      cases hget : table[e.1]? with
      | none => rfl
      | some vs =>
        -- a row of that id among both collections
        obtain ⟨row', hrow', hid', -⟩ := (htable e.1 vs).mp hget
        have hdistinct := hsum.distinct
        rw [List.map_append, List.nodup_append] at hdistinct
        exact absurd (hid'.trans hid.symm)
          (hdistinct.2.2 _ (List.mem_map_of_mem hrow') _ (List.mem_map_of_mem hrow))
    obtain ⟨sum, hadd, hget⟩ := addAll_rows (σ := σ) (keys_toList_nodup more) hnew
    refine ⟨sum, hadd, ?_⟩
    intro id vs
    rw [hget, ExtTreeMap.mem_toList_iff_getElem?_eq_some, htable id vs, hmore id vs]
    simp only [List.mem_append, or_and_right, exists_or]
  unique {xs ys} {table table' : RowTable} hperm h h' := by
    refine ExtTreeMap.ext_getElem? fun id => Option.ext fun vs => ?_
    rw [h id vs, h' id vs]
    simp only [hperm.mem_iff]
  done_ok _ := rfl

/-! ## Histograms -/

/-- How often a cell text occurs in a field. -/
def occurrences (field : String) (rows : List Row) (key : String) : Nat :=
  rows.countP fun row => (row.value? field).map Value.cell = some key

/-- The entry of a histogram for a number of occurrences. -/
def entry (n : Nat) : Option Nat := if n = 0 then none else some n

theorem entry_getD (n : Nat) : (entry n).getD 0 = n := by
  rw [entry]
  split
  · rename_i h
    exact h.symm
  · rfl

theorem entry_eq_some {n k : Nat} : entry n = some k ↔ n = k ∧ n ≠ 0 := by
  rw [entry]
  split
  · rename_i h
    simp [h]
  · rename_i h
    simp [h]

/-- Counts that do not overflow are added to a histogram, key by key. -/
theorem addAll_counts {more : List (String × Nat)} {h : Histogram}
    (hdistinct : (more.map Prod.fst).Nodup) (hfit : ∀ e ∈ more, h.getD e.1 0 + e.2 < UInt64.size) :
    ∃ sum : Histogram, (∀ s : σ, h.addAll more s = (.ok sum, s)) ∧
      (∀ key n, (key, n) ∈ more → sum[key]? = some (h.getD key 0 + n)) ∧
      ∀ key, (∀ n, (key, n) ∉ more) → sum[key]? = h[key]? := by
  induction more generalizing h with
  | nil => exact ⟨h, fun _ => rfl, by simp, fun _ _ => rfl⟩
  | cons e more ih =>
    obtain ⟨key, n⟩ := e
    rw [List.map_cons, List.nodup_cons] at hdistinct
    have hother (m : Nat) : (key, m) ∉ more := fun hmem =>
      hdistinct.1 (List.mem_map.mpr ⟨_, hmem, rfl⟩)
    -- the other keys keep their counts
    have hgetD {k : String} (hk : key ≠ k) :
        (h.insert key (h.getD key 0 + n)).getD k 0 = h.getD k 0 := by
      rw [ExtTreeMap.getD_eq_getD_getElem?, getElem?_insert_ite, if_neg hk,
        ExtTreeMap.getD_eq_getD_getElem?]
    have hfit' : ∀ e ∈ more, (h.insert key (h.getD key 0 + n)).getD e.1 0 + e.2 < UInt64.size := by
      rintro ⟨k, m⟩ he
      rw [hgetD (fun heq => hother m (heq ▸ he))]
      exact hfit _ (List.mem_cons_of_mem _ he)
    obtain ⟨sum, hadd, hin, hout⟩ := ih hdistinct.2 hfit'
    refine ⟨sum, ?_, ?_, ?_⟩
    · intro s
      rw [Histogram.addAll, Hook.bind_of_ok (addCounts_apply (hfit _ List.mem_cons_self) s)]
      exact hadd s
    · intro k m hmem
      rcases List.mem_cons.mp hmem with heq | hmem
      · cases heq
        rw [hout key hother, getElem?_insert_ite, if_pos rfl]
      · rw [hin k m hmem, hgetD (fun heq => hother m (heq ▸ hmem))]
    · intro k hk
      have hne : key ≠ k := fun heq => hk n (heq ▸ List.mem_cons_self)
      rw [hout k (fun m hmem => hk m (List.mem_cons_of_mem _ hmem)), getElem?_insert_ite, if_neg hne]

theorem getD_histogram {field : String} {rows : List Row} {h : Histogram}
    (hcounts : ∀ key, h[key]? = entry (occurrences field rows key)) (key : String) :
    h.getD key 0 = occurrences field rows key := by
  rw [ExtTreeMap.getD_eq_getD_getElem?, hcounts, entry_getD]

/-- Counting rows by the cell text of a field. -/
def histogramSumming (σ : Type) (field : String) : (histogram σ field).Summing where
  Ready _ := True
  Maps row := ∃ v, row.value? field = some v
  Sums rows := fun h : Histogram => ∀ key, h[key]? = entry (occurrences field rows key)
  start_ready _ := trivial
  start_free _ _ := rfl
  map_ok {row s} _ h := by
    obtain ⟨v, hv⟩ := h
    refine ⟨(ExtTreeMap.empty.insert v.cell 1 : Histogram), s, Hook.bind_of_ok (fieldOf_some hv s),
      trivial, ?_⟩
    intro key
    show (ExtTreeMap.empty.insert v.cell 1 : Histogram)[key]? = _
    rw [getElem?_insert_ite, occurrences, List.countP_singleton, hv, Option.map_some]
    by_cases hkey : v.cell = key
    · simp [hkey, entry]
    · simp only [hkey, Option.some_inj, decide_false, if_false, entry]
      rfl
  map_error {row s} _ h := by
    have hnone : row.value? field = none :=
      Option.eq_none_iff_forall_ne_some.mpr fun v hv => h ⟨v, hv⟩
    exact ⟨_, s, Hook.bind_of_error (fieldOf_none hnone s)⟩
  reduce_ok {xs ys} {h more : Histogram} hh hmore hsum := by
    have hgetD := getD_histogram hh
    have hboth (key : String) : occurrences field (xs ++ ys) key =
        occurrences field xs key + occurrences field ys key := List.countP_append
    have hmem {key : String} {n : Nat} : (key, n) ∈ more.toList ↔
        occurrences field ys key = n ∧ occurrences field ys key ≠ 0 := by
      rw [ExtTreeMap.mem_toList_iff_getElem?_eq_some, hmore key, entry_eq_some]
    -- no key occurs in more rows than there are
    have hfit : ∀ e ∈ more.toList, h.getD e.1 0 + e.2 < UInt64.size := by
      rintro ⟨key, n⟩ he
      obtain ⟨rfl, -⟩ := hmem.mp he
      rw [hgetD, ← hboth]
      exact Nat.lt_of_le_of_lt List.countP_le_length hsum.countable
    obtain ⟨sum, hadd, hin, hout⟩ := addAll_counts (σ := σ) (keys_toList_nodup more) hfit
    refine ⟨sum, hadd, ?_⟩
    intro key
    rw [hboth]
    by_cases hzero : occurrences field ys key = 0
    · rw [hout key (fun n he => (hmem.mp he).2 hzero), hh key, hzero, Nat.add_zero]
    · rw [hin key _ (hmem.mpr ⟨rfl, hzero⟩), hgetD, entry, if_neg (by omega)]
  unique {xs ys} {h h' : Histogram} hperm hh hh' := by
    refine ExtTreeMap.ext_getElem? fun key => ?_
    rw [hh key, hh' key, occurrences, hperm.countP_eq, ← occurrences]
  done_ok _ := rfl

/-! ## Matching rows -/

theorem mem_addAll {ids : IdSet} {more : List UInt64} {id : UInt64} :
    id ∈ ids.addAll more ↔ id ∈ ids ∨ id ∈ more := by
  rw [IdSet.addAll]
  induction more generalizing ids with
  | nil => simp
  | cons k more ih =>
    rw [List.foldl_cons, ih, ExtTreeSet.mem_insert, Std.LawfulEqCmp.compare_eq_iff_eq, List.mem_cons]
    tauto

/-- Whether a field of a row has a value that matches a target. -/
def HasMatch (field : String) (target : Value) (row : Row) : Prop :=
  ∃ v, row.value? field = some v ∧ isMatch target v = true

/-- Collecting the ids of matching rows. -/
def matchingSumming (σ : Type) (field : String) (target : Value) :
    (matching σ field target).Summing where
  Ready _ := True
  Maps row := ∃ v, row.value? field = some v
  Sums rows := fun ids : IdSet =>
    ∀ id, id ∈ ids ↔ ∃ row ∈ rows, row.id = id ∧ HasMatch field target row
  start_ready _ := trivial
  start_free _ _ := rfl
  map_ok {row s} _ h := by
    obtain ⟨v, hv⟩ := h
    refine ⟨(if isMatch target v then ExtTreeSet.empty.insert row.id else .empty : IdSet), s,
      Hook.bind_of_ok (fieldOf_some hv s), trivial, ?_⟩
    intro id
    show id ∈ (if isMatch target v then ExtTreeSet.empty.insert row.id else .empty : IdSet) ↔ _
    by_cases hmatch : isMatch target v
    · rw [if_pos hmatch, ExtTreeSet.mem_insert, Std.LawfulEqCmp.compare_eq_iff_eq]
      simp [HasMatch, hv, hmatch]
    · rw [if_neg hmatch]
      simp [HasMatch, hv, hmatch]
  map_error {row s} _ h := by
    have hnone : row.value? field = none :=
      Option.eq_none_iff_forall_ne_some.mpr fun v hv => h ⟨v, hv⟩
    exact ⟨_, s, Hook.bind_of_error (fieldOf_none hnone s)⟩
  reduce_ok {xs ys} {ids more : IdSet} hids hmore _ := by
    refine ⟨(ids.addAll more.toList : IdSet), fun _ => rfl, ?_⟩
    intro id
    rw [mem_addAll, ExtTreeSet.mem_toList, hids id, hmore id]
    simp only [List.mem_append, or_and_right, exists_or]
  unique {xs ys} {ids ids' : IdSet} hperm h h' := by
    refine ExtTreeSet.ext_mem fun id => ?_
    rw [h id, h' id]
    simp only [hperm.mem_iff]
  done_ok _ := rfl

end Aggregator

/-! ## What hooks stop with -/

/-- What a reduction of accumulators stops with, if it does: there is nothing to reduce, a row was
collected twice, or a count leaves its range. -/
inductive Stop.OfReduction : Stop → Prop
  | empty (detail : String) : OfReduction (.fault (.emptyInput detail))
  | twice (id : UInt64) : OfReduction (.fault (Aggregator.collectedTwice id))
  | overflow : OfReduction (.crash ⟨some "attempt to add with overflow"⟩)

/-- The fault of an aggregator is none of these unless it is worded like a row collected twice. -/
theorem Stop.OfReduction.of_aggregator {name message : String}
    (h : Stop.OfReduction (.fault (.aggregator name message))) :
    name = Aggregator.collectName ∧ ∃ id : UInt64, message = s!"row {id.toNat} collected twice" := by
  generalize hs : Stop.fault (.aggregator name message) = s at h
  cases h with
  | empty detail => cases hs
  | overflow => cases hs
  | twice id =>
    rw [Aggregator.collectedTwice, Stop.fault.injEq, Fault.aggregator.injEq] at hs
    exact ⟨hs.1, id, hs.2⟩

theorem Hook.addCounts_stop {m n : Nat} {s s' : σ} {stop : Stop}
    (h : Hook.addCounts m n s = (.error stop, s')) : stop.OfReduction := by
  rw [addCounts] at h
  split at h
  · cases h
  · cases h
    exact .overflow

/-- What stops a hook whose result is only passed on. -/
theorem Hook.stop_of_map {α β : Type} {hook : Hook σ α} {f : α → β} {s s' : σ} {stop : Stop}
    (h : (do let a ← hook; return f a : Hook σ β) s = (.error stop, s')) :
    hook s = (.error stop, s') := by
  rcases hr : hook s with ⟨stop' | a, s₁⟩
  · rw [bind_of_error hr] at h
    cases h
    rfl
  · rw [bind_of_ok hr] at h
    cases h

theorem Histogram.addAll_stop {h : Histogram} {more : List (String × Nat)} {s s' : σ} {stop : Stop}
    (hstop : h.addAll more s = (.error stop, s')) : stop.OfReduction := by
  induction more generalizing h s with
  | nil => cases hstop
  | cons e more ih =>
    obtain ⟨key, n⟩ := e
    rw [addAll] at hstop
    rcases hr : Hook.addCounts (h.getD key 0) n s with ⟨stop' | sum, s₁⟩
    · rw [Hook.bind_of_error hr] at hstop
      cases hstop
      exact Hook.addCounts_stop hr
    · rw [Hook.bind_of_ok hr] at hstop
      exact ih hstop

theorem RowTable.addAll_stop {table : RowTable} {more : List (UInt64 × List Value)} {s s' : σ}
    {stop : Stop} (hstop : table.addAll more s = (.error stop, s')) : stop.OfReduction := by
  induction more generalizing table with
  | nil => cases hstop
  | cons e more ih =>
    obtain ⟨id, values⟩ := e
    rw [addAll] at hstop
    split at hstop
    · cases hstop
      exact .twice id
    · exact ih hstop

namespace Aggregator

/-- The two wordings differ in their last character. -/
theorem lacksField_not_ofReduction {aggregator field : String} {row : Row} :
    ¬ Stop.OfReduction (.fault (lacksField aggregator field row)) := by
  intro h
  obtain ⟨-, id, hmessage⟩ := h.of_aggregator
  have hlast := congrArg (fun message => message.toList.getLast?) hmessage
  simp [toString, List.getLast?_cons, List.getLast?_append] at hlast

theorem csv_not_ofReduction {message : String} :
    ¬ Stop.OfReduction (.fault (.aggregator csvName message)) :=
  fun h => absurd h.of_aggregator.1 (by decide)

theorem openCsv_stop {disk : Disk} {target : CsvTarget} {fields : List String} {s s' : CsvFiles}
    {stop : Stop} (h : openCsv disk target fields s = (.error stop, s')) : ¬ stop.OfReduction := by
  rw [openCsv] at h
  cases hp : target.problem? disk with
  | some problem =>
    rw [hp] at h
    cases h
    exact csv_not_ofReduction
  | none =>
    rw [hp] at h
    cases h

theorem writeRow_stop {fields : List String} {row : Row} {s s' : CsvFiles} {stop : Stop}
    (h : writeRow fields row s = (.error stop, s')) : ¬ stop.OfReduction := by
  rw [writeRow] at h
  rcases hr : fieldsOf csvName fields row s with ⟨stop' | vs, s₁⟩
  · rw [Hook.bind_of_error hr] at h
    cases h
    obtain ⟨field, rfl⟩ := fieldsOf_stop hr
    exact csv_not_ofReduction
  · have hget : (get : Hook CsvFiles CsvFiles) s₁ = (.ok s₁, s₁) := rfl
    rw [Hook.bind_of_ok hr, Hook.bind_of_ok hget] at h
    cases happend : s₁.append? (vs.map (·.cell)) with
    | some files =>
      rw [happend] at h
      cases h
    | none =>
      rw [happend] at h
      cases h
      exact csv_not_ofReduction

end Aggregator

/-! ## Descriptions -/

namespace AggregatorSpec

/-- The way in which a described aggregator sums rows. -/
def summing (disk : Disk) : (spec : AggregatorSpec) → (spec.build disk).Summing
  | count => Aggregator.countSumming _
  | histogram field => Aggregator.histogramSumming _ field
  | collect fields => Aggregator.collectSumming _ fields
  | csv dir fields stem => Aggregator.csvSumming disk ⟨dir, stem.getD defaultStem⟩ fields
  | .matches field value => Aggregator.matchingSumming _ field (.text value)

/-- A described aggregator maps only rows that can be mapped, whatever state it is in. -/
theorem map_sums {disk : Disk} {spec : AggregatorSpec} {row : Row}
    {v : (spec.build disk).output.Carrier} {s s' : CsvFiles}
    (h : (spec.build disk).map row s = (.ok v, s')) :
    (spec.summing disk).Maps row ∧ (spec.summing disk).Sums [row] v := by
  cases spec with
  | csv dir fields stem =>
    exact (summing disk (.csv dir fields stem)).of_map (Aggregator.writeRow_ready h) h
  | count => exact (summing disk .count).of_map trivial h
  | histogram field => exact (summing disk (.histogram field)).of_map trivial h
  | collect fields => exact (summing disk (.collect fields)).of_map trivial h
  | «matches» field value => exact (summing disk (.matches field value)).of_map trivial h

/-- The hooks of a described aggregator other than its reduction stop with something else than that. -/
theorem hooks_stop {disk : Disk} {spec : AggregatorSpec} {stop : Stop}
    (h : (spec.build disk).Stops stop) : ¬ stop.OfReduction := by
  cases spec with
  | count => cases h with | start h | map h | done h => cases h
  | histogram field =>
    cases h with
    | start h | done h => cases h
    | map h => exact Aggregator.fieldOf_stop (Hook.stop_of_map h) ▸ Aggregator.lacksField_not_ofReduction
  | «matches» field value =>
    cases h with
    | start h | done h => cases h
    | map h => exact Aggregator.fieldOf_stop (Hook.stop_of_map h) ▸ Aggregator.lacksField_not_ofReduction
  | collect fields =>
    cases h with
    | start h | done h => cases h
    | map h =>
      obtain ⟨field, rfl⟩ := Aggregator.fieldsOf_stop (Hook.stop_of_map h)
      exact Aggregator.lacksField_not_ofReduction
  | csv dir fields stem =>
    cases h with
    | start h => exact Aggregator.openCsv_stop h
    | map h => exact Aggregator.writeRow_stop h
    | done h => cases h

/-- The aggregator is the described one, but for what it meets outside: what its setup and its
teardown find, and what can keep it from mapping a row, a full disk for example. That is not what
its reductions stop with. -/
def Describes (spec : AggregatorSpec) (a : Aggregator CsvFiles) : Prop :=
  ∃ disk start map done, a = { spec.build disk with start, map, done } ∧
    (∀ {row s v s'}, map row s = (.ok v, s') → ∃ t t', (spec.build disk).map row t = (.ok v, t')) ∧
    ∀ {stop}, a.Stops stop → ¬ stop.OfReduction

theorem describes_build (disk : Disk) (spec : AggregatorSpec) : spec.Describes (spec.build disk) :=
  ⟨disk, _, _, _, rfl, fun h => ⟨_, _, h⟩, hooks_stop⟩

/-- The described aggregators with the ways in which they sum rows. -/
def summers : Disk → List AggregatorSpec → List (Summer CsvFiles)
  | _, [] => []
  | disk, spec :: rest => ⟨spec.build disk, spec.summing disk⟩ :: summers (spec.leaves disk) rest

/-- The copies of a run are copies of the described aggregators. -/
theorem configuredAll_isOf (disk : Disk) (specs : List AggregatorSpec) :
    List.Forall₂ Summer.IsOf (summers disk specs) (configuredAll disk specs) := by
  induction specs generalizing disk with
  | nil => exact .nil
  | cons spec rest ih => exact .cons rfl (ih (spec.leaves disk))

/-- What can be found on a disk is a matter of the setup only. -/
theorem Describes.fits {spec : AggregatorSpec} {a : Aggregator CsvFiles} (h : spec.Describes a)
    (disk : Disk) : Summer.Fits ⟨spec.build disk, spec.summing disk⟩ a := by
  obtain ⟨disk', start, map, done, rfl, hmap, -⟩ := h
  have hsums : ∀ {row s v s'}, map row s = (.ok v, s') →
      (spec.summing disk').Maps row ∧ (spec.summing disk').Sums [row] v := by
    intro row s v s' hrow
    obtain ⟨t, t', hrow'⟩ := hmap hrow
    exact map_sums hrow'
  cases spec <;> exact ⟨start, map, done, rfl, hsums⟩

end AggregatorSpec

end SeededRows
