/-
  SeededRows.Proofs.RowIds.Iteration

  The batches of a finite stream of rows, call by call. A caller asks an iteration for its next batch
  again and again, also after the last one; `emission?` is the answer to the call with a given
  number. The answers cut the rows of the stream into pieces of one size, of which only the last one
  may be smaller, whether they are asked for in one go or in two.
-/
import Mathlib.Logic.Function.Iterate
import SeededRows.Proofs.RowIds.Batches
import SeededRows.Proofs.RowIds.Layout

namespace SeededRows

namespace Batches

variable {ι : Type} [Std.Stream ι RowSpec] {rows : ι} {b : Batches ι} {specs : List RowSpec}
  {batches : List Batch}

/-! ## Asking again and again -/

/-- The iteration after a call. A call that gives no batch leaves it as it was. -/
def rest (b : Batches ι) : Batches ι :=
  match b.next? with
  | some (_, rest) => rest
  | none => b

/-- The iteration after a number of calls. -/
def after (b : Batches ι) (calls : Nat) : Batches ι := rest^[calls] b

/-- The answer to the call with a given number, counted from 0. -/
def emission? (b : Batches ι) (i : Nat) : Option Batch := (b.after i).next?.map Prod.fst

theorem emission?_succ (b : Batches ι) (i : Nat) : b.emission? (i + 1) = b.rest.emission? i := by
  rw [emission?, emission?, after, after, Function.iterate_succ_apply]

/-- The answers are the batches that the iteration gives, and nothing after them. -/
theorem Gives.emission?_eq (h : b.Gives batches) (i : Nat) : b.emission? i = batches[i]? := by
  induction i generalizing b batches with
  | zero =>
    rw [emission?, after, Function.iterate_zero_apply]
    cases h with
    | ends hnone => rw [hnone]; rfl
    | batch hnext => rw [hnext]; rfl
  | succ i ih =>
    rw [emission?_succ, rest]
    cases h with
    | ends hnone =>
      rw [hnone]
      exact (ih (.ends hnone)).trans (by simp)
    | batch hnext hrest =>
      rw [hnext]
      exact (ih hrest).trans (by simp)

/-! ## The batches of a stream -/

/-- The batches that an iteration over a stream of some rows gives. -/
structure Batched (rows : ι) (size : Nat) (specs : List RowSpec) (batches : List Batch) : Prop where
  /-- Every call has the batch in its place, and there is none after the last one. -/
  emission : ∀ i, (ofSize rows size).emission? i = batches[i]?
  together : batches.flatMap Batch.rows = specs
  nonempty : ∀ b ∈ batches, b.rows ≠ []
  /-- Size 0 acts as 1. -/
  full : ∀ b ∈ batches.dropLast, b.rows.length = max size 1
  small : ∀ b ∈ batches, b.rows.length ≤ max size 1
  named : ∀ b ∈ batches, b.rows.head? = some b.id.first ∧ b.rows.getLast? = some b.id.last
  /-- An iteration that is interrupted after some batches has given the first ones. -/
  taken : ∀ m, ((ofSize rows size).take m).1 = batches.take m
  /-- It goes on with the others. -/
  resumed : ∀ m i, ((ofSize rows size).take m).2.emission? i = batches[m + i]?

theorem batched_of_yields (h : RowIds.Yields rows specs) (size : Nat) :
    ∃ batches, Batched rows size specs batches := by
  have hsize : 0 < max size 1 := Nat.lt_of_lt_of_le Nat.one_pos (Nat.le_max_right size 1)
  obtain ⟨batches, hcut⟩ := exists_cut hsize specs
  have hgives : (ofSize rows size).Gives batches := hcut.gives h
  refine ⟨batches, hgives.emission?_eq, hcut.flatMap_rows, fun b hb => (hcut.named b hb).1,
    hcut.length_eq, hcut.length_le, fun b hb => (hcut.named b hb).2, fun m => (hgives.take m).1, ?_⟩
  intro m i
  rw [(hgives.take m).2.emission?_eq, List.getElem?_drop]

/-- Batching loses and repeats nothing. Whatever finite stream of rows is cut into batches of whatever
size, the batches hold its rows in order, none is empty, each but the last one is full, and each is
named after its first and its last row; after the last one there are no more, however often one
asks; and an iteration that is interrupted goes on with the next batch. Rows with different ids, and
so the rows of every plan, make batches with different names. -/
theorem batching_keeps_rows (rows : ι) (specs : List RowSpec) (h : RowIds.Yields rows specs)
    (size : Nat) :
    (∃ batches, Batched rows size specs batches ∧
      ((specs.map RowSpec.id).Nodup → (batches.map Batch.id).Nodup)) ∧
    ∀ (plan : RowIds.Plan) entropy count (s : RowIds.Stream), plan.stream entropy count = .ok s →
      ∃ batches, Batched s size s.toList batches ∧ (batches.map Batch.id).Nodup := by
  have hnames {ι : Type} [Std.Stream ι RowSpec] {rows : ι} {specs : List RowSpec}
      {batches : List Batch} (hbatched : Batched rows size specs batches)
      (hids : (specs.map RowSpec.id).Nodup) : (batches.map Batch.id).Nodup := by
    rw [← hbatched.together] at hids
    exact names_nodup (fun b hb => (hbatched.named b hb).1) hids
  constructor
  · obtain ⟨batches, hbatched⟩ := batched_of_yields h size
    exact ⟨batches, hbatched, hnames hbatched⟩
  · intro plan entropy count s hs
    obtain ⟨hsound, -⟩ := RowIds.Plan.stream_sound hs
    obtain ⟨batches, hbatched⟩ := batched_of_yields hsound.yields_toList size
    exact ⟨batches, hbatched, hnames hbatched hsound.ids_nodup⟩

/-- A list hands out its members. -/
theorem yields_list (specs : List RowSpec) : RowIds.Yields specs specs := by
  induction specs with
  | nil => exact .ends rfl
  | cons spec specs ih => exact .row rfl ih

/-- Five rows with different ids. -/
def fiveRows : List RowSpec := [⟨3, none⟩, ⟨1, none⟩, ⟨4, none⟩, ⟨0, none⟩, ⟨5, none⟩]

/-- In batches of two the five rows make two full batches and one of the last row alone; in batches of
no row each row makes a batch of its own. -/
theorem batching_keeps_rows_five :
    (∃ batches, Batched fiveRows 2 fiveRows batches ∧ batches.length = 3 ∧
      batches[2]? = some ⟨⟨⟨5, none⟩, ⟨5, none⟩⟩, [⟨5, none⟩]⟩ ∧ (batches.map Batch.id).Nodup) ∧
    (∃ batches, Batched fiveRows 0 fiveRows batches ∧ batches.length = 5) ∧
    ∃ s batches, RowIds.Plan.stream ⟨some 5, 3⟩ (.ofSeed 0) 7 = .ok s ∧
      Batched s 2 s.toList batches ∧ (batches.map Batch.id).Nodup := by
  have length_of {size n : Nat} {batches : List Batch} (h : Batched fiveRows size fiveRows batches)
      (hlast : ((ofSize fiveRows size).emission? n).isSome = true)
      (hend : (ofSize fiveRows size).emission? (n + 1) = none) : batches.length = n + 1 := by
    rw [h.emission] at hlast hend
    have hlt : n < batches.length := by simpa using hlast
    have hle : batches.length ≤ n + 1 := List.getElem?_eq_none_iff.mp hend
    omega
  obtain ⟨⟨pairs, hpairs, hnodup⟩, hplans⟩ :=
    batching_keeps_rows fiveRows fiveRows (yields_list fiveRows) 2
  obtain ⟨⟨singles, hsingles, -⟩, -⟩ := batching_keeps_rows fiveRows fiveRows (yields_list fiveRows) 0
  obtain ⟨s, hs⟩ := (RowIds.Plan.stream_isOk_iff ⟨some 5, 3⟩ (.ofSeed 0) 7).mpr (by decide)
  obtain ⟨batches, hbatched⟩ := hplans _ _ _ s hs
  refine ⟨⟨pairs, hpairs, length_of hpairs rfl rfl, ?_, hnodup (by decide)⟩,
    ⟨singles, hsingles, length_of hsingles rfl rfl⟩, s, batches, hs, hbatched⟩
  rw [← hpairs.emission]
  rfl

end Batches

end SeededRows
