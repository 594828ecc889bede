/-
  SeededRows.Proofs.Names

  Sets of names as lists. The list that is made of some names holds each of them once, in
  increasing order; no other list does.
-/
import Mathlib.Data.List.Sort
import SeededRows.Names

namespace SeededRows.Names

variable {names set : List String} {name : String}

/-- A list that stands for a set: the names with a property, in increasing order. -/
structure IsSet (set : List String) (P : String → Prop) : Prop where
  increasing : set.Pairwise (· < ·)
  mem_iff : ∀ name, name ∈ set ↔ P name

/-- A set has one list only. -/
theorem IsSet.unique {P : String → Prop} {set' : List String} (h : IsSet set P) (h' : IsSet set' P) :
    set = set' := by
  have hasymm : Std.Antisymm fun a b : String => a < b :=
    ⟨fun a b hab hba => absurd hba (String.lt_asymm hab)⟩
  have hirrefl : Std.Irrefl fun a b : String => a < b := ⟨String.lt_irrefl⟩
  exact h.increasing.eq_of_mem_iff h'.increasing fun name =>
    (h.mem_iff name).trans (h'.mem_iff name).symm

theorem mem_dropRepeats : name ∈ dropRepeats names ↔ name ∈ names := by
  fun_induction dropRepeats names with
  | case1 a rest ih => rw [ih, List.mem_cons, List.mem_cons, List.mem_cons, or_self_left]
  | case2 a b rest hne ih => rw [List.mem_cons, ih, ← List.mem_cons]
  | case3 names => rfl

/-- Names that do not decrease increase once the repeated ones are dropped. -/
theorem increasing_dropRepeats (h : names.Pairwise (· ≤ ·)) :
    (dropRepeats names).Pairwise (· < ·) := by
  fun_induction dropRepeats names with
  | case1 a rest ih => exact ih (List.pairwise_cons.mp h).2
  | case2 a b rest hne ih =>
    obtain ⟨hfirst, hrest⟩ := List.pairwise_cons.mp h
    refine List.pairwise_cons.mpr ⟨?_, ih hrest⟩
    intro name hname
    have hab : a ≤ b := hfirst b List.mem_cons_self
    have hbn : b ≤ name := by
      rcases List.mem_cons.mp (mem_dropRepeats.mp hname) with rfl | hlater
      · exact String.le_refl name
      · exact (List.pairwise_cons.mp hrest).1 name hlater
    -- were the name not above `a`, it would be below `b` as well, which is `a` then
    refine String.not_le.mp fun hna => hne ?_
    exact String.le_antisymm hab (String.le_trans hbn hna)
  | case3 names hshort =>
    cases names with
    | nil => exact .nil
    | cons a rest =>
      cases rest with
      | nil => exact List.pairwise_singleton _ _
      | cons b rest => exact absurd rfl (hshort a b rest)

/-- The list that is made of names is the set of them. -/
theorem isSet_ofList (names : List String) : IsSet (ofList names) (· ∈ names) where
  increasing := by
    have hsorted := @List.pairwise_mergeSort String (fun a b => decide (a ≤ b))
      (fun a b c hab hbc => decide_eq_true
        (String.le_trans (of_decide_eq_true hab) (of_decide_eq_true hbc)))
      (fun a b => by simpa using String.le_total a b) names
    exact increasing_dropRepeats (hsorted.imp of_decide_eq_true)
  mem_iff name := by rw [ofList, mem_dropRepeats, List.mem_mergeSort]

end SeededRows.Names
