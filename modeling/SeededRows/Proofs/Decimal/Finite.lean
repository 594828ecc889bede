/-
  SeededRows.Proofs.Decimal.Finite

  The doubles that the reading of numbers yields are finite. A double is taken apart into a
  significand and an exponent; arithmetic rounds its exact result and puts it together again,
  which gives a finite double unless the exponent is too large. Whole words and negations never
  come near that bound, a product is tested for it, and a quotient by a power of ten above one
  is smaller than the dividend.
-/
import Mathlib.Algebra.Order.Ring.Int
import Mathlib.Tactic.SplitIfs
import SeededRows.Decimal.Reading

namespace SeededRows.Decimal

open Float.Model Float.Model.UnpackedFloat

/-! ## Packing -/

/-- A double in parts whose exponent fits the packed form. -/
def Fits : UnpackedFloat → Prop
  | .zero _ => True
  | .finite _ _ e _ => e ≤ 971
  | _ => False

theorem unpack_pack (u : UnpackedFloat) :
    (Float.Model.pack u).unpack =
      UnpackedFloat.unpack Format.binary64 (UnpackedFloat.pack Format.binary64 u) := rfl

/-- The digits of a normal double, its leading one put back. -/
theorem toNat_append (y : BitVec 52) : (1#1 ++ y).toNat = 2 ^ 52 + y.toNat := by
  rw [BitVec.toNat_append, ← Nat.shiftLeft_add_eq_or_of_lt y.isLt]
  simp [Nat.shiftLeft_eq]

/-- How a double is taken apart: with all bits of its exponent set it is no finite number, with none
it has no leading one. -/
theorem unpack_eq (b : BitVec Format.binary64.numBits) :
    ∃ (hdigits : unpackMantissa b ≠ 0#_ → 0 < (unpackMantissa b).toNat)
      (hleading : 0 < (1#1 ++ unpackMantissa b).toNat),
      UnpackedFloat.unpack Format.binary64 b =
        if unpackExponent b = -1#_ then
          if unpackMantissa b = 0#_ then .infinity (.ofBitVec (unpackSign b)) else .notANumber
        else if unpackExponent b = 0#_ then
          if h : unpackMantissa b = 0#_ then .zero (.ofBitVec (unpackSign b))
          else .finite (.ofBitVec (unpackSign b)) (unpackMantissa b).toNat
            ((unpackExponent b).toNat - 1075 + 1) (hdigits h)
        else .finite (.ofBitVec (unpackSign b)) (1#1 ++ unpackMantissa b).toNat
          ((unpackExponent b).toNat - 1075) hleading := by
  have hdigits : unpackMantissa b ≠ 0#_ → 0 < (unpackMantissa b).toNat := by
    intro hne
    exact Nat.pos_of_ne_zero fun hzero => hne (BitVec.eq_of_toNat_eq hzero)
  have hleading : 0 < (1#1 ++ unpackMantissa b).toNat := by
    rw [toNat_append (unpackMantissa b)]
    omega
  exact ⟨hdigits, hleading, rfl⟩

/-- A packed double is finite unless all bits of its exponent are set. -/
theorem isFinite_unpack {b : BitVec Format.binary64.numBits} (h : unpackExponent b ≠ -1#_) :
    (UnpackedFloat.unpack Format.binary64 b).isFinite = true := by
  obtain ⟨hdigits, hleading, heq⟩ := unpack_eq b
  rw [heq, if_neg h]
  by_cases hexponent : unpackExponent b = 0#_
  · rw [if_pos hexponent]
    by_cases hmantissa : unpackMantissa b = 0#_
    · rw [dif_pos hmantissa]
      rfl
    · rw [dif_neg hmantissa]
      rfl
  · rw [if_neg hexponent]
    rfl

theorem isInf_packedInfinity (s : Sign) :
    (UnpackedFloat.unpack Format.binary64 (packedInfinity Format.binary64 s)).isInf = true := by
  have hexponent : unpackExponent (packedInfinity Format.binary64 s) = -1#_ :=
    unpackExponent_packComponents
  have hmantissa : unpackMantissa (packedInfinity Format.binary64 s) = 0#_ :=
    unpackMantissa_packComponents
  obtain ⟨_, _, heq⟩ := unpack_eq (packedInfinity Format.binary64 s)
  rw [heq, if_pos hexponent, if_pos hmantissa]
  rfl

/-- The biased exponent of a double in parts. -/
theorem biasedExponent_eq (e : Int) :
    (e + Format.binary64.exponentBias + (52 : Nat)).toNat = (e + 1075).toNat := by
  have hbias : (Format.binary64.exponentBias : Int) = 1023 := rfl
  omega

theorem pack_of_lt {s : Sign} {m : Nat} {e : Int} {hm : 0 < m} (he : 971 < e) :
    UnpackedFloat.pack Format.binary64 (.finite s m e hm) = packedInfinity Format.binary64 s := by
  delta UnpackedFloat.pack
  dsimp only
  rw [biasedExponent_eq, if_pos (show 2 ^ 11 ≤ (e + 1075).toNat + 1 by omega)]

theorem pack_of_le {s : Sign} {m : Nat} {e : Int} {hm : 0 < m} (he : e ≤ 971) :
    UnpackedFloat.pack Format.binary64 (.finite s m e hm) =
      packComponents Format.binary64 s
        (if m.log2 + 1 = 53 then BitVec.ofNat 11 (e + 1075).toNat else 0#11)
        (BitVec.ofNat 52 m) := by
  have hbits : Format.binary64.mantissaBits = 53 := rfl
  delta UnpackedFloat.pack
  dsimp only
  rw [biasedExponent_eq, hbits, if_neg (show ¬ 2 ^ 11 ≤ (e + 1075).toNat + 1 by omega)]
  split_ifs <;> rfl

/-- An exponent that fits has a bit that is not set. -/
theorem exponent_ne_allOnes {e : Int} (he : e ≤ 971) :
    BitVec.ofNat 11 (e + 1075).toNat ≠ -1#_ := by
  intro heq
  have hvalue := congrArg BitVec.toNat heq
  rw [BitVec.toNat_ofNat, Nat.mod_eq_of_lt (by omega)] at hvalue
  have hones : (-1#11 : BitVec 11).toNat = 2047 := by decide
  omega

theorem isFinite_pack {u : UnpackedFloat} (h : Fits u) :
    (Float.Model.pack u).isFinite = true := by
  rw [Float.Model.isFinite, unpack_pack]
  apply isFinite_unpack
  cases u with
  | infinity s => exact h.elim
  | notANumber => exact h.elim
  | zero s =>
    show unpackExponent (packComponents Format.binary64 s 0#_ 0#_) ≠ -1#_
    rw [unpackExponent_packComponents]
    decide
  | finite s m e hm =>
    rw [pack_of_le h, unpackExponent_packComponents]
    split_ifs
    · exact exponent_ne_allOnes h
    · decide

/-- Packing loses a number only to an infinity. -/
theorem isFinite_pack_or (u : UnpackedFloat) (h : u ≠ .notANumber) :
    (Float.Model.pack u).isFinite = true ∨ (Float.Model.pack u).isInf = true := by
  cases u with
  | notANumber => exact absurd rfl h
  | infinity s => exact .inr (isInf_packedInfinity s)
  | zero s => exact .inl (isFinite_pack trivial)
  | finite s m e hm =>
    by_cases he : e ≤ 971
    · exact .inl (isFinite_pack he)
    · refine .inr ?_
      rw [Float.Model.isInf, unpack_pack, pack_of_lt (Int.not_le.mp he)]
      exact isInf_packedInfinity s

/-- What a finite double holds. -/
theorem unpack_bounds {b : BitVec Format.binary64.numBits} {s : Sign} {m : Nat} {e : Int}
    {hm : 0 < m} (h : UnpackedFloat.unpack Format.binary64 b = .finite s m e hm) :
    m < 2 ^ 53 ∧ e ≤ 971 := by
  have hmantissa : (unpackMantissa b).toNat < 2 ^ 52 := (unpackMantissa b).isLt
  have hexponent : (unpackExponent b).toNat < 2 ^ 11 := (unpackExponent b).isLt
  obtain ⟨hdigits, hleading, heq⟩ := unpack_eq b
  rw [heq] at h
  by_cases hones : unpackExponent b = -1#_
  · rw [if_pos hones] at h
    by_cases hinf : unpackMantissa b = 0#_
    · rw [if_pos hinf] at h
      cases h
    · rw [if_neg hinf] at h
      cases h
  rw [if_neg hones] at h
  by_cases hsub : unpackExponent b = 0#_
  · rw [if_pos hsub] at h
    by_cases hzero : unpackMantissa b = 0#_
    · rw [dif_pos hzero] at h
      cases h
    · -- A subnormal double has the smallest exponent and no implicit digit.
      rw [dif_neg hzero] at h
      cases h
      rw [hsub]
      exact ⟨by omega, by simp only [BitVec.toNat_zero]; omega⟩
  · rw [if_neg hsub] at h
    cases h
    have hlarge : (unpackExponent b).toNat ≠ 2047 := by
      intro heq
      exact hones (BitVec.eq_of_toNat_eq heq)
    have hnormal : (1#1 ++ unpackMantissa b).toNat < 2 ^ 53 := (1#1 ++ unpackMantissa b).isLt
    exact ⟨hnormal, by omega⟩

/-! ## Rounding -/

/-- The exponent that rounding aims at. -/
theorem targetExponent_eq (total : Int) :
    Format.binary64.targetExponent total = max (total - 53) (-1074) := rfl

theorem mantissa_shiftRight (em : ExtendedMantissa) (n : Nat) :
    (em >>> n).mantissa = em.mantissa / 2 ^ n := by
  change (n.repeat ExtendedMantissa.shiftRightOne em).mantissa = _
  induction n with
  | zero => simp [Nat.repeat]
  | succ n ih =>
    rw [Nat.repeat, ExtendedMantissa.shiftRightOne, ih, Nat.div_div_eq_div_mul, Nat.pow_succ]

theorem roundedMantissa_bounds (em : ExtendedMantissa) :
    em.mantissa ≤ em.roundedMantissa ∧ em.roundedMantissa ≤ em.mantissa + 1 := by
  rcases em with ⟨m, _ | _, _ | _⟩ <;>
    simp only [ExtendedMantissa.roundedMantissa, ExtendedMantissa.accuracy,
      Accuracy.roundToNearestEven] <;> omega

theorem mantissa_ofMantissaAndAccuracy (m : Nat) (accuracy : Accuracy) :
    (ExtendedMantissa.ofMantissaAndAccuracy m accuracy).mantissa = m := by
  rcases accuracy with _ | _ | _ | _ <;> rfl

/-- A significand and an exponent as the parts of a double; without any digits it is a zero. -/
def parts (s : Sign) (m : Nat) (e : Int) : UnpackedFloat :=
  if h : m = 0 then .zero s else .finite s m e (Nat.pos_of_ne_zero h)

theorem parts_ne_notANumber {s : Sign} {m : Nat} {e : Int} : parts s m e ≠ .notANumber := by
  rw [parts]
  by_cases hzero : m = 0
  · rw [dif_pos hzero]
    rintro ⟨⟩
  · rw [dif_neg hzero]
    rintro ⟨⟩

/-- Rounding drops digits until the exponent is the one aimed at, adds at most one, and drops
digits again. -/
theorem roundWithAccuracy_cases (s : Sign) (m : Nat) (e : Int) (accuracy : Accuracy) :
    ∃ j k m₁ : Nat, j = (max (m.log2 + 1 + e - 53) (-1074) - e).toNat ∧
      m / 2 ^ j ≤ m₁ ∧ m₁ ≤ m / 2 ^ j + 1 ∧
      k = (max (m₁.log2 + 1 + (e + j) - 53) (-1074) - (e + j)).toNat ∧
      roundWithAccuracy Format.binary64 s m e accuracy = parts s (m₁ / 2 ^ k) (e + j + k) := by
  let j := (max (m.log2 + 1 + e - 53) (-1074) - e).toNat
  let em := ExtendedMantissa.ofMantissaAndAccuracy m accuracy >>> j
  let k := (max (em.roundedMantissa.log2 + 1 + (e + j) - 53) (-1074) - (e + j)).toNat
  have hbounds := roundedMantissa_bounds em
  have hmantissa : em.mantissa = m / 2 ^ j := by
    rw [mantissa_shiftRight, mantissa_ofMantissaAndAccuracy]
  rw [hmantissa] at hbounds
  refine ⟨j, k, em.roundedMantissa, rfl, hbounds.1, hbounds.2, rfl, ?_⟩
  show parts s (ExtendedMantissa.ofMantissaAndAccuracy em.roundedMantissa .exact >>> k).mantissa
    (e + j + k) = _
  rw [mantissa_shiftRight, mantissa_ofMantissaAndAccuracy]

/-- A number rounds to one that fits if its leading digit does. -/
theorem fits_roundWithAccuracy (s : Sign) {m : Nat} {e : Int} (accuracy : Accuracy)
    (he : e ≤ 971) (htotal : totalExponent m e ≤ 1023) :
    Fits (roundWithAccuracy Format.binary64 s m e accuracy) := by
  obtain ⟨j, k, m₁, hj, -, hup, hk, hround⟩ := roundWithAccuracy_cases s m e accuracy
  rw [totalExponent] at htotal
  -- Adding one reaches at most the next power of two.
  have hpow : m₁ ≤ 2 ^ (m.log2 + 1 - j) := by
    have hdiv : m / 2 ^ j < 2 ^ (m.log2 + 1 - j) := by
      rw [Nat.div_lt_iff_lt_mul (Nat.two_pow_pos j), ← Nat.pow_add]
      exact Nat.lt_of_lt_of_le Nat.lt_log2_self (Nat.pow_le_pow_right (by decide) (by omega))
    omega
  have hlog : m₁.log2 ≤ m.log2 + 1 - j := by
    rcases Nat.eq_zero_or_pos m₁ with rfl | hpos
    · simp
    · exact (Nat.pow_le_pow_iff_right (by decide : 1 < 2)).mp
        (Nat.le_trans (Nat.log2_self_le (Nat.ne_of_gt hpos)) hpow)
  rw [hround, parts]
  by_cases hzero : m₁ / 2 ^ k = 0
  · rw [dif_pos hzero]
    trivial
  · rw [dif_neg hzero]
    change e + j + k ≤ 971
    omega

/-! ## Powers of ten -/

/-- Whether a double in parts is eight or more, whatever its sign. -/
def isLarge : UnpackedFloat → Bool
  | .finite _ m e _ => 4 ≤ totalExponent m e
  | _ => false

theorem isLarge_finite {s : Sign} {m : Nat} {e : Int} {hm : 0 < m} :
    isLarge (.finite s m e hm) = true ↔ 4 ≤ totalExponent m e :=
  decide_eq_true_iff

theorem log2_append (y : BitVec 52) : (1#1 ++ y).toNat.log2 = 52 := by
  have hrest : y.toNat < 2 ^ 52 := y.isLt
  rw [toNat_append, Nat.log2_eq_iff (by omega)]
  omega

/-- A normal double is taken apart into what it was put together from. -/
theorem unpack_packComponents {x : BitVec Format.binary64.exponentBits} (s : Sign)
    (y : BitVec Format.binary64.mantissaBitsWithoutImplicit) (hones : x ≠ -1#_)
    (hzero : x ≠ 0#_) :
    ∃ s' h, UnpackedFloat.unpack Format.binary64 (packComponents Format.binary64 s x y) =
      .finite s' (1#1 ++ y).toNat (x.toNat - 1075) h := by
  have hexponent : unpackExponent (packComponents Format.binary64 s x y) = x :=
    unpackExponent_packComponents
  have hmantissa : unpackMantissa (packComponents Format.binary64 s x y) = y :=
    unpackMantissa_packComponents
  generalize packComponents Format.binary64 s x y = b at hexponent hmantissa ⊢
  subst hexponent hmantissa
  obtain ⟨_, hleading, heq⟩ := unpack_eq b
  rw [heq, if_neg hones, if_neg hzero]
  exact ⟨_, hleading, rfl⟩

/-- A number with all the digits of a double keeps its size when it is packed. -/
theorem isLarge_pack {s : Sign} {m : Nat} {e : Int} {hm : 0 < m} (hlog : m.log2 = 52)
    (hlow : -49 ≤ e) (hhigh : e ≤ 971) :
    isLarge (Float.Model.pack (.finite s m e hm)).unpack = true := by
  have hvalue : (BitVec.ofNat 11 (e + 1075).toNat).toNat = (e + 1075).toNat := by
    rw [BitVec.toNat_ofNat, Nat.mod_eq_of_lt (by omega)]
  have hzero : BitVec.ofNat 11 (e + 1075).toNat ≠ 0#11 := by
    intro heq
    rw [heq] at hvalue
    simp only [BitVec.toNat_zero] at hvalue
    omega
  obtain ⟨s', h, hunpack⟩ :=
    unpack_packComponents s (BitVec.ofNat 52 m) (exponent_ne_allOnes hhigh) hzero
  rw [unpack_pack, pack_of_le hhigh, if_pos (show m.log2 + 1 = 53 by omega), hunpack,
    isLarge_finite, totalExponent, log2_append, hvalue]
  omega

/-- A number from eight up rounds to a double from eight up. -/
theorem isLarge_roundWithAccuracy (s : Sign) {m : Nat} {e : Int} (accuracy : Accuracy)
    (hdigits : 52 ≤ m.log2) (hlow : 4 ≤ totalExponent m e) (hhigh : totalExponent m e ≤ 1023) :
    isLarge (Float.Model.pack (roundWithAccuracy Format.binary64 s m e accuracy)).unpack =
      true := by
  obtain ⟨j, k, m₁, hj, hdown, hup, hk, hround⟩ := roundWithAccuracy_cases s m e accuracy
  rw [totalExponent] at hlow hhigh
  have hm : m ≠ 0 := by
    rintro rfl
    exact absurd hdigits (by decide)
  have hshift : m.log2 = 52 + j := by omega
  have hbounds : 2 ^ 52 ≤ m / 2 ^ j ∧ m / 2 ^ j < 2 ^ 53 := by
    have hself := Nat.log2_self_le hm
    have hlt : m < 2 ^ (m.log2 + 1) := Nat.lt_log2_self
    rw [hshift] at hself hlt
    rw [Nat.le_div_iff_mul_le (Nat.two_pow_pos j), Nat.div_lt_iff_lt_mul (Nat.two_pow_pos j),
      ← Nat.pow_add, ← Nat.pow_add]
    exact ⟨hself, by rwa [show 53 + j = 52 + j + 1 by omega]⟩
  have hfinal : (m₁ / 2 ^ k).log2 = 52 ∧ e + j + k ≤ 971 ∧ -49 ≤ e + j + k := by
    -- Rounding up can carry into a new leading digit; then the digits are all zero but that one.
    rcases Nat.lt_or_ge m₁ (2 ^ 53) with hless | hmore
    · have hlog : m₁.log2 = 52 := (Nat.log2_eq_iff (by omega)).mpr ⟨by omega, by omega⟩
      rw [hlog] at hk
      have hzero : k = 0 := by omega
      subst hzero
      rw [Nat.pow_zero, Nat.div_one]
      exact ⟨hlog, by omega, by omega⟩
    · have heq : m₁ = 2 ^ 53 := by omega
      subst heq
      rw [Nat.log2_two_pow] at hk
      have hone : k = 1 := by omega
      subst hone
      exact ⟨by decide, by omega, by omega⟩
  have hsome : m₁ / 2 ^ k ≠ 0 := by
    intro hzero
    rw [hzero] at hfinal
    exact absurd hfinal.1 (by decide)
  rw [hround, parts, dif_neg hsome]
  exact isLarge_pack hfinal.1 hfinal.2.2 hfinal.2.1

/-- A power of ten with many digits is rounded from the exact power. -/
theorem tenTo_eq {n : Nat} (hlow : 23 ≤ n) (hhigh : n ≤ 307) :
    tenTo n = .ofModel (.pack (roundWithAccuracy Format.binary64 .positive
      (2 ^ 53 * 10 ^ n) (-53) .exact)) := by
  have hlarge : ¬ ((n : Int) > 2 ^ 11) := by omega
  have hsmall : ¬ ((n : Int) < -((2 ^ 11 : Int) + (1 : Nat).log2)) := by omega
  have hexact : UnpackedFloat.ofScientific Format.binary64 1 n =
      roundWithAccuracy Format.binary64 .positive (2 ^ 53 * 10 ^ n) (-53) .exact := by
    rw [UnpackedFloat.ofScientific, dif_neg Nat.one_ne_zero, if_neg hlarge, if_neg hsmall,
      if_pos (Int.natCast_nonneg n)]
    rfl
  rw [tenTo, Float.ofScientific, dif_neg (by omega)]
  exact congrArg (fun u => Float.ofModel (.pack u)) hexact

/-- Every power of ten that scaling uses is a double from eight up. -/
theorem isLarge_tenTo {n : Nat} (hpos : 0 < n) (h : n ≤ 308) :
    isLarge (tenTo n).toModel.unpack = true := by
  -- Up to `10 ^ 22` a power stands in a table of exact doubles, and the leading digit of `10 ^ 308`
  -- is too close to that of the largest double for the bound; these few are computed.
  have hexact : ∀ n < 23, 0 < n → isLarge (tenTo n).toModel.unpack = true := by
    decide +kernel
  have hlast : isLarge (tenTo 308).toModel.unpack = true := by
    decide +kernel
  rcases Nat.lt_or_ge n 23 with hfew | hmany
  · exact hexact n hfew hpos
  obtain rfl | hless := Nat.eq_or_lt_of_le h
  · exact hlast
  have hten : ∀ {j k}, j ≤ k → 10 ^ j ≤ 10 ^ k := fun hjk => Nat.pow_le_pow_right (by decide) hjk
  have hne : 2 ^ 53 * 10 ^ n ≠ 0 :=
    Nat.mul_ne_zero (by decide) (Nat.ne_of_gt (Nat.pow_pos (by decide)))
  have hlow : 56 ≤ (2 ^ 53 * 10 ^ n).log2 :=
    (Nat.le_log2 hne).mpr
      (Nat.le_trans (by decide) (Nat.mul_le_mul_left (2 ^ 53) (hten (Nat.succ_le_of_lt hpos))))
  have hhigh : (2 ^ 53 * 10 ^ n).log2 < 1076 :=
    (Nat.log2_lt hne).mpr (Nat.lt_of_le_of_lt
      (Nat.mul_le_mul_left (2 ^ 53) (hten (Nat.le_of_lt_succ hless))) (by decide +kernel))
  rw [tenTo_eq hmany (by omega)]
  apply isLarge_roundWithAccuracy
  · omega
  · rw [totalExponent]
    omega
  · rw [totalExponent]
    omega

/-- Every power of ten that scaling uses is finite. -/
theorem isFinite_tenTo {n : Nat} (h : n ≤ 308) : (tenTo n).isFinite = true := by
  rcases Nat.eq_zero_or_pos n with rfl | hpos
  · decide +kernel
  have hlarge := isLarge_tenTo hpos h
  change (tenTo n).toModel.unpack.isFinite = true
  cases hn : (tenTo n).toModel.unpack with
  | finite => rfl
  | zero => rfl
  | infinity =>
    rw [hn] at hlarge
    cases hlarge
  | notANumber =>
    rw [hn] at hlarge
    cases hlarge

/-! ## Arithmetic -/

/-- A finite double is zero, or a significand and an exponent that are in bounds. -/
theorem isFinite_cases {x : Float} (h : x.isFinite = true) :
    (∃ s, x.toModel.unpack = .zero s) ∨
    ∃ s m e hm, x.toModel.unpack = .finite s m e hm ∧ m < 2 ^ 53 ∧ e ≤ 971 := by
  change x.toModel.unpack.isFinite = true at h
  cases hx : x.toModel.unpack with
  | infinity s =>
    rw [hx] at h
    cases h
  | notANumber =>
    rw [hx] at h
    cases h
  | zero s => exact .inl ⟨s, rfl⟩
  | finite s m e hm => exact .inr ⟨s, m, e, hm, rfl, unpack_bounds hx⟩

theorem isFinite_neg {x : Float} (h : x.isFinite = true) : (-x).isFinite = true := by
  change (Float.Model.pack x.toModel.unpack.neg).isFinite = true
  obtain ⟨s, hx⟩ | ⟨s, m, e, hm, hx, -, he⟩ := isFinite_cases h
  · rw [hx]
    exact isFinite_pack trivial
  · rw [hx]
    exact isFinite_pack he

/-- The leading digit of a number below a power of two. -/
theorem log2_lt_of_lt {m n : Nat} (h : m < 2 ^ (n + 1)) : m.log2 < n + 1 := by
  rcases Nat.eq_zero_or_pos m with rfl | hpos
  · simp
  · exact (Nat.log2_lt (Nat.ne_of_gt hpos)).mpr h

/-- The double nearest to a word is finite. -/
theorem isFinite_toFloat (n : UInt64) : n.toFloat.isFinite = true := by
  change (Float.Model.pack (UnpackedFloat.ofInt Format.binary64 (n.toNat : Int))).isFinite = true
  apply isFinite_pack
  rw [UnpackedFloat.ofInt, UnpackedFloat.normalize]
  split
  · rename_i hlt
    rw [Int.compare_eq_lt] at hlt
    omega
  · trivial
  · -- The exact value is below `2 ^ 64`, with whatever number of digits after the point.
    rw [UnpackedFloat.round, decreaseExponent, Int.toNat_natCast]
    dsimp only
    generalize (0 - Format.binary64.targetExponent (totalExponent n.toNat 0)).toNat = k
    have hshift : n.toNat <<< k < 2 ^ (63 + k + 1) := by
      rw [Nat.shiftLeft_eq, show 63 + k + 1 = 64 + k by omega, Nat.pow_add]
      exact Nat.mul_lt_mul_of_pos_right n.toNat_lt (Nat.two_pow_pos k)
    have hlog := log2_lt_of_lt hshift
    apply fits_roundWithAccuracy
    · omega
    · rw [totalExponent]
      omega

/-- A product that is not infinite is finite. -/
theorem isFinite_mul {x y : Float} (hx : x.isFinite = true) (hy : y.isFinite = true)
    (h : (x * y).isInf = false) : (x * y).isFinite = true := by
  have hnumber : UnpackedFloat.mul Format.binary64 x.toModel.unpack y.toModel.unpack ≠
      .notANumber := by
    obtain ⟨s, hx⟩ | ⟨s, m, e, hm, hx, -, -⟩ := isFinite_cases hx <;>
      obtain ⟨s', hy⟩ | ⟨s', m', e', hm', hy, -, -⟩ := isFinite_cases hy <;>
        rw [hx, hy]
    · rintro ⟨⟩
    · rintro ⟨⟩
    · rintro ⟨⟩
    · obtain ⟨_, _, _, -, -, -, -, hround⟩ :=
        roundWithAccuracy_cases (s * s') (m * m') (e + e') .exact
      show roundWithAccuracy Format.binary64 (s * s') (m * m') (e + e') .exact ≠ .notANumber
      rw [hround]
      exact parts_ne_notANumber
  obtain hfinite | hinf := isFinite_pack_or _ hnumber
  · exact hfinite
  · exact absurd (h.symm.trans hinf) Bool.false_ne_true

/-- A quotient has at most the size of the dividend over that of the divisor. -/
theorem log2_div {m n k : Nat} (hn : 0 < n) : (m <<< k / n).log2 ≤ m.log2 + k - n.log2 := by
  rcases Nat.eq_zero_or_pos (m <<< k / n) with hzero | hpos
  · simp [hzero]
  have hquotient : 2 ^ (m <<< k / n).log2 * 2 ^ n.log2 < 2 ^ (m.log2 + 1) * 2 ^ k := by
    calc 2 ^ (m <<< k / n).log2 * 2 ^ n.log2
        ≤ (m <<< k / n) * n := Nat.mul_le_mul (Nat.log2_self_le (Nat.ne_of_gt hpos))
          (Nat.log2_self_le (Nat.ne_of_gt hn))
      _ ≤ m <<< k := Nat.div_mul_le_self _ _
      _ = m * 2 ^ k := Nat.shiftLeft_eq m k
      _ < 2 ^ (m.log2 + 1) * 2 ^ k :=
        Nat.mul_lt_mul_of_pos_right Nat.lt_log2_self (Nat.two_pow_pos k)
  rw [← Nat.pow_add, ← Nat.pow_add, Nat.pow_lt_pow_iff_right (by decide : 1 < 2)] at hquotient
  omega

/-- A quotient by a number from eight up is finite. -/
theorem isFinite_div {x y : Float} (hx : x.isFinite = true)
    (hy : isLarge y.toModel.unpack = true) : (x / y).isFinite = true := by
  change (Float.Model.pack (UnpackedFloat.div Format.binary64 x.toModel.unpack
    y.toModel.unpack)).isFinite = true
  apply isFinite_pack
  cases hunpack : y.toModel.unpack with
  | infinity s =>
    rw [hunpack] at hy
    cases hy
  | notANumber =>
    rw [hunpack] at hy
    cases hy
  | zero s =>
    rw [hunpack] at hy
    cases hy
  | finite s' m' e' hm' =>
    rw [hunpack, isLarge_finite, totalExponent] at hy
    obtain ⟨s, hx⟩ | ⟨s, m, e, hm, hx, hbound, he⟩ := isFinite_cases hx
    · rw [hx]
      trivial
    · have hlog : m.log2 < 53 := log2_lt_of_lt hbound
      rw [hx]
      show Fits (roundWithAccuracy Format.binary64 (s / s') (m <<< (e - e' - min (e - e')
          (Format.binary64.targetExponent (totalExponent m e - totalExponent m' e'))).toNat / m')
        (min (e - e') (Format.binary64.targetExponent (totalExponent m e - totalExponent m' e'))) _)
      simp only [targetExponent_eq, totalExponent]
      have hdiv := log2_div (m := m) (k := (e - e' -
        min (e - e') (max (m.log2 + 1 + e - (m'.log2 + 1 + e') - 53) (-1074))).toNat) hm'
      apply fits_roundWithAccuracy
      · omega
      · rw [totalExponent]
        omega

/-! ## Reading -/

/-- A scaled number is finite, like the number itself. -/
theorem isFinite_scale? {fuel : Nat} {x y : Float} {power : Int} (hx : x.isFinite = true)
    (h : scale? fuel x power = some y) : y.isFinite = true := by
  induction fuel generalizing x power with
  | zero => cases h
  | succ fuel ih =>
    rw [scale?] at h
    split_ifs at h with hnear hup hzero
    · dsimp only at h
      split_ifs at h with hinf
      cases h
      exact isFinite_mul hx (isFinite_tenTo hnear) (Bool.eq_false_iff.mpr hinf)
    · cases h
      exact isFinite_div hx (isLarge_tenTo (by omega) hnear)
    · cases h
      exact hx
    · exact ih (isFinite_div hx (isLarge_tenTo (by decide) (by decide))) h

/-- The double that a number in a document names is finite. -/
theorem isFinite_scaled? {negative : Bool} {significand : Nat} {power : Int} {x : Float}
    (h : scaled? negative significand power = some x) : x.isFinite = true := by
  rw [scaled?] at h
  obtain ⟨y, hy, rfl⟩ := Option.map_eq_some_iff.mp h
  have hfinite : y.isFinite = true := isFinite_scale? (isFinite_toFloat _) hy
  split_ifs
  · exact isFinite_neg hfinite
  · exact hfinite

end SeededRows.Decimal
