/-
  SeededRows.Proofs.RowIds.Shuffle

  Shuffling moves the elements of an array about and neither loses nor repeats one, whatever
  words the source gives. The argument needs nothing of the places that are drawn: a swap with
  any place, even one outside the array, keeps the elements.
-/
import Mathlib.Data.List.Perm.Basic
import SeededRows.Random.Shuffle

namespace SeededRows.Random

variable {α : Type}

/-- A swap keeps the elements, also when one of its places is outside the array. -/
theorem swapIfInBounds_perm (xs : Array α) (i j : Nat) : (xs.swapIfInBounds i j).Perm xs := by
  rw [Array.swapIfInBounds_def]
  by_cases hi : i < xs.size
  · rw [dif_pos hi]
    by_cases hj : j < xs.size
    · rw [dif_pos hj]
      exact Array.swap_perm hi hj
    · rw [dif_neg hj]
  · rw [dif_neg hi]

theorem shuffleFrom_perm (todo i : Nat) (places : Places) (xs : Array α) (s : Source) :
    (shuffleFrom todo i places xs s).1.Perm xs := by
  induction todo generalizing i places xs s with
  | zero => exact Array.Perm.refl xs
  | succ todo ih =>
    rw [shuffleFrom]
    -- one swap, with whatever place was drawn, and the rest
    exact (ih ..).trans (swapIfInBounds_perm xs i _)

/-- A shuffled array holds the elements of the array. -/
theorem shuffle_perm (xs : Array α) (s : Source) : (shuffle xs s).1.Perm xs :=
  shuffleFrom_perm xs.size 0 .start xs s

/-- The numbers below a bound are all different, in whatever order they stand. -/
theorem nodup_of_perm_range {xs : Array Nat} {n : Nat} (h : xs.Perm (Array.range n)) :
    xs.toList.Nodup := by
  rw [h.toList.nodup_iff, Array.toList_range]
  exact List.nodup_range

end SeededRows.Random
