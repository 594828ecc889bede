/-
  SeededRows.Proofs.Aggregator.Conservation

  What the accumulators of the same rows have to do with each other. Every row is counted once in a
  histogram, under the text of its cell, so the counts add up to the number of rows. The ids of a
  table of collected rows are those of all rows. A match collector for a text keeps as many ids as
  the histogram of the field counts under that text, and they are the ids under which a collector of
  the field has a value with that text: a value that equals a text has that text in its cell, so the
  two ways to match a text are one.
-/
import Mathlib.Algebra.BigOperators.Group.List.Lemmas
import Mathlib.Algebra.GroupWithZero.Nat
import SeededRows.Proofs.Aggregator.Stock

namespace SeededRows

open Std (ExtTreeMap ExtTreeSet)

/-! ## Texts of cells -/

/-- A value matches a text when that is the text of its cell. -/
theorem Aggregator.isMatch_text {text : String} {v : Value} :
    isMatch (.text text) v = true ↔ v.cell = text := by
  have hsame : v.same (.text text) = true → v.cell = text := by
    intro h
    cases v with
    | text s => exact beq_iff_eq.mp h
    | _ => cases h
  rw [isMatch, Bool.or_eq_true, beq_iff_eq]
  exact ⟨fun h => h.elim hsame id, .inr⟩

/-- The value of one of the fields that are read. -/
theorem Row.values?_getElem? {row : Row} {fields : List String} {vs : List Value}
    (h : row.values? fields = some vs) {k : Nat} {field : String} (hk : fields[k]? = some field) :
    vs[k]? = row.value? field := by
  induction fields generalizing vs k with
  | nil => cases hk
  | cons first fields ih =>
    rw [values?_cons] at h
    obtain ⟨v, hv, h⟩ := Option.bind_eq_some_iff.mp h
    obtain ⟨rest, hrest, rfl⟩ := Option.map_eq_some_iff.mp h
    cases k with
    | zero =>
      cases hk
      exact hv.symm
    | succ k => exact ih hrest hk

namespace Aggregator

/-! ## Histograms -/

/-- The texts of the cells of a field. -/
def cells (field : String) (rows : List Row) : List String :=
  rows.filterMap fun row => (row.value? field).map Value.cell

theorem length_cells {field : String} {rows : List Row}
    (hmaps : ∀ row ∈ rows, ∃ v, row.value? field = some v) : (cells field rows).length = rows.length := by
  rw [cells, List.length_filterMap_eq_countP, List.countP_eq_length]
  intro row hrow
  obtain ⟨v, hv⟩ := hmaps row hrow
  simp [hv]

theorem count_cells (field : String) (rows : List Row) (key : String) :
    (cells field rows).count key = occurrences field rows key := by
  rw [cells, List.count_eq_countP, List.countP_filterMap, occurrences]
  congr 1
  funext row
  cases (row.value? field).map Value.cell with
  | none => rfl
  | some cell => simp [beq_eq_decide]

/-- The counts of a histogram of rows add up to the number of rows. -/
theorem sum_histogram {field : String} {rows : List Row} {h : Histogram}
    (hmaps : ∀ row ∈ rows, ∃ v, row.value? field = some v)
    (hcounts : ∀ key, h[key]? = entry (occurrences field rows key)) :
    (h.toList.map Prod.snd).sum = rows.length := by
  have hentry {key : String} {n : Nat} : (key, n) ∈ h.toList ↔
      (cells field rows).count key = n ∧ (cells field rows).count key ≠ 0 := by
    rw [ExtTreeMap.mem_toList_iff_getElem?_eq_some, hcounts, entry_eq_some, count_cells]
  -- the keys are the texts that occur, each once
  have hkeys : (h.toList.map Prod.fst).Perm (cells field rows).dedup := by
    rw [List.perm_ext_iff_of_nodup (keys_toList_nodup h) (List.nodup_dedup _)]
    intro key
    rw [List.mem_dedup, List.mem_map]
    constructor
    · rintro ⟨⟨k, n⟩, he, rfl⟩
      exact List.count_pos_iff.mp (Nat.pos_of_ne_zero (hentry.mp he).2)
    · intro hmem
      have hpos := List.count_pos_iff.mpr hmem
      exact ⟨(key, _), hentry.mpr ⟨rfl, by omega⟩, rfl⟩
  have hvalues : h.toList.map Prod.snd =
      (h.toList.map Prod.fst).map fun key => (cells field rows).count key := by
    rw [List.map_map]
    exact List.map_congr_left fun e he => (hentry.mp he).1.symm
  rw [hvalues, (hkeys.map _).sum_nat, List.sum_map_count_dedup_eq_length, length_cells hmaps]

/-! ## Sets of ids -/

/-- The ids of rows that a match collector keeps are as many as the rows that match. -/
theorem size_matching {field text : String} {rows : List Row} {ids : IdSet}
    (hdistinct : (rows.map Row.id).Nodup)
    (hids : ∀ id, id ∈ ids ↔ ∃ row ∈ rows, row.id = id ∧ HasMatch field (.text text) row) :
    ids.size = occurrences field rows text := by
  have hmatch {row : Row} : HasMatch field (.text text) row ↔
      (row.value? field).map Value.cell = some text := by
    rw [HasMatch, Option.map_eq_some_iff]
    exact exists_congr fun v => and_congr_right fun _ => isMatch_text
  have hnodup : ids.toList.Nodup := by
    refine ids.distinct_toList.imp ?_
    intro a b hne heq
    exact hne (Std.LawfulEqCmp.compare_eq_iff_eq.mpr heq)
  have hperm : ids.toList.Perm ((rows.filter fun row =>
      (row.value? field).map Value.cell = some text).map Row.id) := by
    rw [List.perm_ext_iff_of_nodup hnodup (hdistinct.sublist (List.filter_sublist.map _))]
    intro id
    rw [ExtTreeSet.mem_toList, hids, List.mem_map]
    refine exists_congr fun row => ?_
    rw [List.mem_filter, decide_eq_true_iff, hmatch]
    tauto
  rw [← ExtTreeSet.length_toList, hperm.length_eq, List.length_map, occurrences,
    List.countP_eq_length_filter]

/-- The ids that a match collector keeps are those under which a collector of the field has a value
with that text. -/
theorem mem_matching {field text : String} {fields : List String} {rows : List Row} {ids : IdSet}
    {table : RowTable} {k : Nat} (hk : fields[k]? = some field)
    (hmaps : ∀ row ∈ rows, ∃ vs, row.values? fields = some vs)
    (hids : ∀ id, id ∈ ids ↔ ∃ row ∈ rows, row.id = id ∧ HasMatch field (.text text) row)
    (htable : ∀ id vs, table[id]? = some vs ↔ ∃ row ∈ rows, row.id = id ∧ row.values? fields = some vs)
    (id : UInt64) :
    id ∈ ids ↔ ∃ vs v, table[id]? = some vs ∧ vs[k]? = some v ∧ v.cell = text := by
  rw [hids]
  constructor
  · rintro ⟨row, hrow, rfl, v, hv, hmatch⟩
    obtain ⟨vs, hvs⟩ := hmaps row hrow
    have hvalue : vs[k]? = some v := (Row.values?_getElem? hvs hk).trans hv
    exact ⟨vs, v, (htable _ _).mpr ⟨row, hrow, rfl, hvs⟩, hvalue, isMatch_text.mp hmatch⟩
  · rintro ⟨vs, v, hget, hvalue, hcell⟩
    obtain ⟨row, hrow, rfl, hvs⟩ := (htable _ _).mp hget
    have hv : row.value? field = some v := (Row.values?_getElem? hvs hk).symm.trans hvalue
    exact ⟨row, hrow, rfl, v, hv, isMatch_text.mpr hcell⟩

/-! ## Tables -/

/-- The ids of a table of collected rows are those of the rows. -/
theorem keys_collected {fields : List String} {rows : List Row} {table : RowTable}
    (hdistinct : (rows.map Row.id).Nodup) (hmaps : ∀ row ∈ rows, ∃ vs, row.values? fields = some vs)
    (htable : ∀ id vs, table[id]? = some vs ↔ ∃ row ∈ rows, row.id = id ∧ row.values? fields = some vs) :
    table.keys.Perm (rows.map Row.id) := by
  rw [List.perm_ext_iff_of_nodup ExtTreeMap.nodup_keys hdistinct]
  intro id
  rw [ExtTreeMap.mem_keys, ExtTreeMap.mem_iff_isSome_getElem?, Option.isSome_iff_exists, List.mem_map]
  constructor
  · rintro ⟨vs, hget⟩
    obtain ⟨row, hrow, hid, -⟩ := (htable id vs).mp hget
    exact ⟨row, hrow, hid⟩
  · rintro ⟨row, hrow, hid⟩
    obtain ⟨vs, hvs⟩ := hmaps row hrow
    exact ⟨vs, (htable id vs).mpr ⟨row, hrow, hid, hvs⟩⟩

end Aggregator

end SeededRows
