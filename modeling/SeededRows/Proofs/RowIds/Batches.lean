/-
  SeededRows.Proofs.RowIds.Batches

  The batches of a stream of rows. An iteration over batches gives a list of them and then
  ends; put together, their rows are the rows of the stream, so batches of rows with different
  ids have different names. An iteration that was interrupted goes on where it stopped.
-/
import Mathlib.Data.List.Nodup
import SeededRows.Proofs.RowIds.Stream
import SeededRows.RowIds.Batch

namespace SeededRows

/-! ## One batch -/

theorem Batch.rows_of_ofRows? {rows : List RowSpec} {b : Batch} (h : Batch.ofRows? rows = some b) :
    b.rows = rows := by
  cases rows with
  | nil => cases h
  | cons first rest =>
    cases h
    rfl

/-- A batch is named after the first and the last of its rows. -/
theorem Batch.ofRows?_named {rows : List RowSpec} {b : Batch} (h : Batch.ofRows? rows = some b) :
    b.rows ≠ [] ∧ b.rows.head? = some b.id.first ∧ b.rows.getLast? = some b.id.last := by
  cases rows with
  | nil => cases h
  | cons first rest =>
    cases h
    exact ⟨List.cons_ne_nil _ _, rfl, List.getLast?_eq_some_getLast _⟩

theorem Batch.ofRows?_eq_none {rows : List RowSpec} (h : Batch.ofRows? rows = none) : rows = [] := by
  cases rows with
  | nil => rfl
  | cons first rest => cases h

namespace Batches

variable {ι : Type} [Std.Stream ι RowSpec]

/-! ## What an iteration gives -/

/-- An iteration gives these batches, and then it ends. -/
inductive Gives : Batches ι → List Batch → Prop
  | ends {b : Batches ι} : b.next? = none → Gives b []
  | batch {b rest : Batches ι} {batch : Batch} {batches : List Batch} :
      b.next? = some (batch, rest) → Gives rest batches → Gives b (batch :: batches)

theorem Gives.eq_nil {b : Batches ι} {batches : List Batch} (h : b.Gives batches)
    (hn : b.next? = none) : batches = [] := by
  cases h with
  | ends => rfl
  | batch hs =>
    rw [hn] at hs
    cases hs

theorem Gives.eq_cons {b rest : Batches ι} {batch : Batch} {batches : List Batch}
    (h : b.Gives batches) (hs : b.next? = some (batch, rest)) :
    ∃ more, batches = batch :: more ∧ rest.Gives more := by
  cases h with
  | ends hn =>
    rw [hn] at hs
    cases hs
  | batch hs' hrest =>
    rw [hs'] at hs
    cases hs
    exact ⟨_, rfl, hrest⟩

/-- An iteration that is interrupted after some batches goes on with the next ones. -/
theorem Gives.take {b : Batches ι} {batches : List Batch} (h : b.Gives batches) (n : Nat) :
    (b.take n).1 = batches.take n ∧ (b.take n).2.Gives (batches.drop n) := by
  induction n generalizing b batches with
  | zero => exact ⟨rfl, h⟩
  | succ n ih =>
    cases h with
    | ends hn =>
      have htake : Batches.take (n + 1) b = ([], b) := by rw [Batches.take, hn]
      rw [htake]
      exact ⟨rfl, .ends hn⟩
    | @batch _ rest batch batches hs hrest =>
      obtain ⟨hfirst, hlast⟩ := ih hrest
      have htake : Batches.take (n + 1) b = (batch :: (rest.take n).1, (rest.take n).2) := by
        rw [Batches.take, hs]
      rw [htake, List.take_succ_cons, hfirst]
      exact ⟨rfl, hlast⟩

/-! ## Rows cut into batches -/

/-- Rows that are cut into batches: each batch takes its rows off the front, and there is one as long
as there are rows. -/
inductive Cut (size : Nat) : List RowSpec → List Batch → Prop
  | nil : Cut size [] []
  | cons {specs : List RowSpec} {batch : Batch} {batches : List Batch} :
      Batch.ofRows? (specs.take size) = some batch → Cut size (specs.drop size) batches →
      Cut size specs (batch :: batches)

section Cutting

variable {size : Nat} {specs : List RowSpec} {batches : List Batch}

/-- Rows can be cut into batches of any size. -/
theorem exists_cut (hsize : 0 < size) (specs : List RowSpec) : ∃ batches, Cut size specs batches := by
  induction hn : specs.length using Nat.strong_induction_on generalizing specs with
  | _ n ih =>
    cases hb : Batch.ofRows? (specs.take size) with
    | none =>
      have hnil := Batch.ofRows?_eq_none hb
      rw [List.take_eq_nil_iff] at hnil
      rw [hnil.resolve_left (by omega)]
      exact ⟨[], .nil⟩
    | some batch =>
      have hrows : specs.take size ≠ [] := by
        rw [← Batch.rows_of_ofRows? hb]
        exact (Batch.ofRows?_named hb).1
      have hpos : 0 < specs.length := by
        rw [List.length_pos_iff]
        rintro rfl
        exact hrows List.take_nil
      obtain ⟨batches, hrest⟩ := ih (specs.drop size).length (by rw [List.length_drop]; omega) _ rfl
      exact ⟨batch :: batches, .cons hb hrest⟩

theorem Cut.eq_nil (h : Cut size [] batches) : batches = [] := by
  cases h with
  | nil => rfl
  | cons hb =>
    rw [List.take_nil] at hb
    cases hb

/-- Nothing is lost or repeated. -/
theorem Cut.flatMap_rows (h : Cut size specs batches) : batches.flatMap Batch.rows = specs := by
  induction h with
  | nil => rfl
  | cons hb _ ih => rw [List.flatMap_cons, ih, Batch.rows_of_ofRows? hb, List.take_append_drop]

theorem Cut.named (h : Cut size specs batches) : ∀ b ∈ batches,
    b.rows ≠ [] ∧ b.rows.head? = some b.id.first ∧ b.rows.getLast? = some b.id.last := by
  induction h with
  | nil => exact fun b hb => absurd hb List.not_mem_nil
  | cons hbatch _ ih =>
    intro b hb
    rcases List.mem_cons.mp hb with rfl | hb
    · exact Batch.ofRows?_named hbatch
    · exact ih b hb

theorem Cut.length_le (h : Cut size specs batches) : ∀ b ∈ batches, b.rows.length ≤ size := by
  induction h with
  | nil => exact fun b hb => absurd hb List.not_mem_nil
  | cons hbatch _ ih =>
    intro b hb
    rcases List.mem_cons.mp hb with rfl | hb
    · rw [Batch.rows_of_ofRows? hbatch]
      exact List.length_take_le _ _
    · exact ih b hb

/-- Only the last batch may be smaller. -/
theorem Cut.length_eq (h : Cut size specs batches) : ∀ b ∈ batches.dropLast, b.rows.length = size := by
  induction h with
  | nil => exact fun b hb => absurd hb List.not_mem_nil
  | @cons specs batch batches hbatch hrest ih =>
    intro b hb
    by_cases hlast : batches = []
    · rw [hlast] at hb
      exact absurd hb List.not_mem_nil
    · rw [List.dropLast_cons_of_ne_nil hlast] at hb
      rcases List.mem_cons.mp hb with rfl | hb
      · -- the batches after it have rows, so there were enough for this one
        have hmore : specs.drop size ≠ [] := fun hnil => hlast (hnil ▸ hrest).eq_nil
        rw [ne_eq, List.drop_eq_nil_iff] at hmore
        rw [Batch.rows_of_ofRows? hbatch, List.length_take]
        omega
      · exact ih b hb

/-- The batches that the rows of a stream are cut into are those that an iteration gives. -/
theorem Cut.gives {rows : ι} (h : Cut size specs batches) (hrows : RowIds.Yields rows specs) :
    (Batches.mk rows size).Gives batches := by
  induction h generalizing rows with
  | nil =>
    obtain ⟨rest, htake, -⟩ := RowIds.takeRows_of_yields hrows size
    apply Gives.ends
    rw [next?, htake, List.take_nil]
    rfl
  | @cons specs batch batches hbatch _ ih =>
    obtain ⟨rest, htake, hrest⟩ := RowIds.takeRows_of_yields hrows size
    have hnext : (Batches.mk rows size).next? = some (batch, ⟨rest, size⟩) := by
      rw [next?, htake]
      dsimp only
      rw [hbatch]
      rfl
    exact .batch hnext (ih hrest)

/-- The batches of a stream hold its rows in order, and each of them starts with the row that is
first in its name. -/
theorem gives_of_yields {rows : ι} (h : RowIds.Yields rows specs) (hsize : 0 < size) :
    ∃ batches, (Batches.mk rows size).Gives batches ∧ batches.flatMap Batch.rows = specs ∧
      ∀ b ∈ batches, b.rows.head? = some b.id.first := by
  obtain ⟨batches, hcut⟩ := exists_cut hsize specs
  exact ⟨batches, hcut.gives h, hcut.flatMap_rows, fun b hb => (hcut.named b hb).2.1⟩

end Cutting

theorem firsts_sublist {batches : List Batch} (h : ∀ b ∈ batches, b.rows.head? = some b.id.first) :
    (batches.map fun b => b.id.first).Sublist (batches.flatMap Batch.rows) := by
  induction batches with
  | nil => exact .slnil
  | cons b batches ih =>
    have hrest := ih fun b' hb' => h b' (List.mem_cons_of_mem b hb')
    have hhead : [b.id.first].Sublist b.rows :=
      List.singleton_sublist.mpr (List.mem_of_mem_head? (h b List.mem_cons_self))
    rw [List.map_cons, List.flatMap_cons]
    exact hhead.append hrest

/-- Batches of rows with different ids have different names. -/
theorem names_nodup {batches : List Batch} (h : ∀ b ∈ batches, b.rows.head? = some b.id.first)
    (hids : ((batches.flatMap Batch.rows).map RowSpec.id).Nodup) : (batches.map Batch.id).Nodup := by
  have hfirsts : (batches.map fun b => b.id.first).Nodup := (hids.of_map _).sublist (firsts_sublist h)
  rw [← Function.comp_def BatchId.first, ← List.map_map] at hfirsts
  exact hfirsts.of_map _

/-- The batches of the rows of a run: they hold all its rows in order, none is empty, and their names
differ. -/
theorem gives_of_sound {s : RowIds.Stream} (h : s.Sound) (size : Nat) : ∃ batches,
    (Batches.ofSize s size).Gives batches ∧ batches.flatMap Batch.rows = s.toList ∧
      (∀ b ∈ batches, b.rows ≠ []) ∧ (batches.map Batch.id).Nodup := by
  obtain ⟨batches, hgives, hflat, hheads⟩ :=
    gives_of_yields h.yields_toList (Nat.lt_of_lt_of_le Nat.one_pos (Nat.le_max_right size 1))
  refine ⟨batches, hgives, hflat, ?_, names_nodup hheads ?_⟩
  · intro b hb hnil
    have hhead := hheads b hb
    rw [hnil] at hhead
    cases hhead
  · rw [hflat]
    exact h.ids_nodup

/-- A batch takes a row off the stream, or more. -/
theorem remaining_of_next? {b rest : Batches RowIds.Stream} {batch : Batch}
    (h : b.next? = some (batch, rest)) : rest.rows.remaining < b.rows.remaining := by
  have hlen := RowIds.Stream.length_takeOnto b.size [] b.rows
  rw [next?, RowIds.takeRows] at h
  obtain ⟨batch', hbatch, heq⟩ := Option.map_eq_some_iff.mp h
  cases heq
  -- no rows make no batch
  have hsome : (RowIds.takeOnto b.size [] b.rows).1 ≠ [] := by
    intro hnil
    rw [hnil] at hbatch
    cases hbatch
  have hpos := List.length_pos_iff.mpr hsome
  rw [List.length_nil] at hlen
  show (RowIds.takeOnto b.size [] b.rows).2.remaining < _
  omega

/-- All rows of some batches together. -/
theorem sum_size (batches : List Batch) :
    (batches.map Batch.size).sum = (batches.flatMap Batch.rows).length := by
  rw [List.length_flatMap]
  rfl

/-- Batches with different names are known by their names. -/
theorem perm_of_ids {batches all : List Batch} (hall : (all.map Batch.id).Nodup)
    (hids : (batches.map Batch.id).Perm (all.map Batch.id)) (hmem : ∀ b ∈ batches, b ∈ all) :
    batches.Perm all := by
  have hnodup : batches.Nodup := (hids.nodup_iff.mpr hall).of_map _
  have hlength : batches.length = all.length := by simpa using hids.length_eq
  exact (List.subperm_of_subset hnodup hmem).perm_of_length_le (Nat.le_of_eq hlength.symm)

end Batches

end SeededRows
