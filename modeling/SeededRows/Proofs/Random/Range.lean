/-
  SeededRows.Proofs.Random.Range

  Every number that is taken below a bound is below it, and every integer that is taken from a
  range lies in it, whatever words the source gives. And there are words for each of them: no number
  below the bound and no integer of the range is left out.
-/
import Mathlib.Tactic.ByContra
import SeededRows.Random.Range

namespace SeededRows.Random

/-- Words select offsets below the bound: a product that leaves a doubt stays short of the last
multiple. -/
theorem offset_lt {size bound first second : Nat} (hbound : 0 < bound) (hsize : bound ≤ size)
    (hfirst : first < size) : offset size bound first second < bound := by
  have hproduct : first * bound + bound ≤ size * bound := by
    calc first * bound + bound = (first + 1) * bound := (Nat.succ_mul first bound).symm
      _ ≤ size * bound := Nat.mul_le_mul_right bound hfirst
  have hsplit : size * (first * bound / size) + first * bound % size = first * bound :=
    Nat.div_add_mod (first * bound) size
  have hquotient : first * bound / size < bound := by
    rw [Nat.div_lt_iff_lt_mul (by omega), Nat.mul_comm bound size]
    omega
  simp only [offset]
  split
  · rename_i hdoubt
    obtain ⟨hremainder, -⟩ := hdoubt
    -- otherwise the product would reach into the last remainder
    by_contra hlast
    have hnext : first * bound / size + 1 = bound := by omega
    have hwhole : size * (first * bound / size) + size = size * bound := by
      rw [← Nat.mul_succ, Nat.succ_eq_add_one, hnext]
    omega
  · exact hquotient

/-- Every offset below the bound is selected by some first word; a second word of zero settles the
doubt that it may leave. -/
theorem exists_offset {size bound k : Nat} (hk : k < bound) (hsize : bound ≤ size) :
    ∃ first < size, offset size bound first 0 = k := by
  -- the first word whose product with the bound reaches `k` times the number of words
  have hsplit := Nat.div_add_mod (k * size + bound - 1) bound
  have hmod := Nat.mod_lt (k * size + bound - 1) (Nat.zero_lt_of_lt hk)
  generalize (k * size + bound - 1) / bound = first at hsplit
  rw [Nat.mul_comm bound first] at hsplit
  have hlow : k * size ≤ first * bound := by omega
  have hhigh : first * bound < k * size + bound := by omega
  have hquotient : first * bound / size = k := by
    rw [Nat.div_eq_iff (by omega)]
    omega
  have hlimit : first * bound < size * bound := by
    calc first * bound < (k + 1) * size := by rw [Nat.succ_mul]; omega
      _ ≤ bound * size := Nat.mul_le_mul_right size hk
      _ = size * bound := Nat.mul_comm bound size
  refine ⟨first, Nat.lt_of_mul_lt_mul_right hlimit, ?_⟩
  have hremainder := Nat.mod_lt (first * bound) (show 0 < size by omega)
  simp only [offset, Nat.zero_mul, Nat.zero_div, Nat.add_zero, hquotient]
  rw [if_neg]
  omega

namespace Source

theorem below64_lt {bound : Nat} (hbound : 0 < bound) (hsize : bound ≤ UInt64.size) (s : Source) :
    (s.below64 bound).1 < bound := by
  simp only [below64]
  split
  · exact offset_lt hbound hsize (UInt64.toNat_lt _)
  · exact offset_lt hbound hsize (UInt64.toNat_lt _)

/-- An integer that is taken from a range lies between its ends. -/
theorem between_spec {low high : Int64} (h : low.toInt ≤ high.toInt) (s : Source) :
    low.toInt ≤ (s.between low high).1.toInt ∧ (s.between low high).1.toInt ≤ high.toInt := by
  have hlow := low.le_toInt
  have hhigh := high.toInt_lt
  simp only [between]
  split
  · -- a range of all integers
    rename_i hall
    have hsize : ((UInt64.size : Nat) : Int) = 2 ^ 64 := rfl
    have hword := (s.wide.1.toInt64).le_toInt
    have hword' := (s.wide.1.toInt64).toInt_lt
    dsimp only
    omega
  · rename_i hpart
    have hsize : ((UInt64.size : Nat) : Int) = 2 ^ 64 := rfl
    have hcount : (high.toInt - low.toInt + 1).toNat ≤ UInt64.size := by omega
    have hpos : 0 < (high.toInt - low.toInt + 1).toNat := by omega
    have hoffset := s.below64_lt hpos hcount
    dsimp only
    rw [Int64.toInt_ofInt_of_le (by omega) (by omega)]
    omega

/-! ## Words for a number -/

/-- A word of 64 bits is put together from its halves. -/
theorem halves_joined (w : UInt64) :
    w.toUInt32.toUInt64 ||| ((w >>> 32).toUInt32.toUInt64 <<< 32) = w := by
  have hw := w.toNat_lt
  have hlow : w.toNat % 2 ^ 32 < 2 ^ 32 := Nat.mod_lt _ (by decide)
  apply UInt64.toNat.inj
  simp only [UInt64.toNat_or, UInt64.toNat_shiftLeft, UInt64.toNat_shiftRight, UInt32.toNat_toUInt64,
    UInt64.toNat_toUInt32]
  have hplace : UInt64.toNat 32 % 64 = 32 := rfl
  have hhigh : w.toNat >>> 32 < 2 ^ 32 := by
    rw [Nat.shiftRight_eq_div_pow]
    omega
  have hjoined : (w.toNat >>> 32) <<< 32 + w.toNat % 2 ^ 32 = w.toNat := by
    rw [Nat.shiftLeft_eq, Nat.shiftRight_eq_div_pow]
    omega
  have hshifted : (w.toNat >>> 32) <<< 32 < 2 ^ 64 := by omega
  rw [hplace, Nat.mod_eq_of_lt hhigh, Nat.mod_eq_of_lt hshifted, Nat.or_comm,
    ← Nat.shiftLeft_add_eq_or_of_lt hlow, hjoined]

/-- A source in which a word of 64 bits comes before all others. -/
def preceded (w : UInt64) (s : Source) : Source :=
  { s with pending := w.toUInt32 :: (w >>> 32).toUInt32 :: s.pending }

theorem wide_preceded (w : UInt64) (s : Source) : (s.preceded w).wide = (w, s) := by
  show (w.toUInt32.toUInt64 ||| ((w >>> 32).toUInt32.toUInt64 <<< 32), s) = (w, s)
  rw [halves_joined]

/-- Every number below the bound is taken from some source. -/
theorem exists_below64 {bound k : Nat} (hk : k < bound) (hsize : bound ≤ UInt64.size) :
    ∃ s : Source, (s.below64 bound).1 = k := by
  obtain ⟨first, hfirst, hoffset⟩ := exists_offset hk hsize
  refine ⟨((ofSeed 0).preceded 0).preceded (UInt64.ofNat first), ?_⟩
  have hword : (UInt64.ofNat first).toNat = first := UInt64.toNat_ofNat_of_lt hfirst
  simp only [below64, wide_preceded, hword]
  split <;> exact hoffset

/-- Every integer of a range is taken from some source. -/
theorem exists_between {low high n : Int64} (hlow : low.toInt ≤ n.toInt) (hhigh : n.toInt ≤ high.toInt) :
    ∃ s : Source, (s.between low high).1 = n := by
  have hmin := low.le_toInt
  have hmax := high.toInt_lt
  by_cases hall : high.toInt - low.toInt + 1 = UInt64.size
  · refine ⟨(ofSeed 0).preceded n.toUInt64, ?_⟩
    simp only [between, hall, if_true, wide_preceded]
    rfl
  · have hsize : ((UInt64.size : Nat) : Int) = 2 ^ 64 := rfl
    have hoffset : (n.toInt - low.toInt).toNat < (high.toInt - low.toInt + 1).toNat := by omega
    have hcount : (high.toInt - low.toInt + 1).toNat ≤ UInt64.size := by omega
    obtain ⟨s, hs⟩ := exists_below64 hoffset hcount
    refine ⟨s, ?_⟩
    simp only [between, hall, if_false, hs]
    have hsum : low.toInt + (n.toInt - low.toInt).toNat = n.toInt := by omega
    rw [hsum, Int64.ofInt_toInt]

end Source

end SeededRows.Random
