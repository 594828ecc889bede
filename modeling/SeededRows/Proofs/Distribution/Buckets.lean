/-
  SeededRows.Proofs.Distribution.Buckets

  The labels of a bucket partition the integers. Thresholds that increase are reached in their order,
  so those that an integer has reached come before all others, and the integer belongs between the
  last one that it has reached and the next one. Bisecting finds the number of the reached
  thresholds, as a look at one threshold after the other does, and the label in that place is drawn.
-/
import SeededRows.Proofs.FieldOrder.Acceptance

namespace SeededRows

/-! ## Bisecting -/

/-- A predicate holds of the entries before a place and of no others. -/
def HoldsBefore {α : Type} (p : α → Bool) (xs : List α) (place : Nat) : Prop :=
  ∀ (i : Nat) (x : α), xs[i]? = some x → (p x = true ↔ i < place)

section

variable {α : Type} {p : α → Bool} {xs : List α} {place : Nat}

/-- When the predicate holds of no entry after one of which it does not hold, the entries of which it
holds come first. -/
theorem holdsBefore_countP (h : xs.Pairwise fun x y => p y = true → p x = true) :
    HoldsBefore p xs (xs.countP p) := by
  induction xs with
  | nil => intro i x hx; cases hx
  | cons first rest ih =>
    obtain ⟨hfirst, hrest⟩ := List.pairwise_cons.mp h
    intro i x hx
    by_cases hp : p first = true
    · rw [List.countP_cons_of_pos hp]
      cases i with
      | zero =>
        cases hx
        exact iff_of_true hp (Nat.succ_pos _)
      | succ i => rw [ih hrest i x hx, Nat.succ_lt_succ_iff]
    · -- it holds of none of them
      have hnone : ∀ y ∈ first :: rest, ¬ p y = true := by
        intro y hy
        rcases List.mem_cons.mp hy with rfl | hy
        · exact hp
        · exact fun hpy => hp (hfirst y hy hpy)
      rw [List.countP_eq_zero.mpr hnone]
      exact iff_of_false (hnone x (List.mem_of_getElem? hx)) (Nat.not_lt_zero i)

/-- The part that is bisected always has the place in it, until nothing else is left. -/
theorem HoldsBefore.partitionPoint_eq (h : HoldsBefore p xs place) {low size : Nat}
    (hlow : low ≤ place) (hhigh : place ≤ low + size) (hsize : low + size ≤ xs.length) :
    partitionPoint p xs.toArray low size = place := by
  fun_induction partitionPoint p xs.toArray low size with
  | case1 low => omega
  | case2 low size hsome middle hnone =>
    have hlast : xs.toArray.size ≤ middle := Array.getElem?_eq_none_iff.mp hnone
    rw [List.size_toArray] at hlast
    omega
  | case3 low size hsome middle x hx hp ih =>
    have hbefore : middle < place := (h middle x (by rwa [← List.getElem?_toArray])).mp hp
    exact ih (by omega) (by omega) (by omega)
  | case4 low size hsome middle x hx hp ih =>
    have hafter : ¬ middle < place :=
      fun hlt => hp ((h middle x (by rwa [← List.getElem?_toArray])).mpr hlt)
    exact ih (by omega) (by omega) (by omega)

/-- Looking at one entry after the other, one finds the same place. -/
theorem HoldsBefore.findIdx_eq (h : HoldsBefore p xs place) (hplace : place ≤ xs.length)
    {q : α → Bool} (hq : ∀ x, q x = !p x) : xs.findIdx q = place := by
  have hbefore : ∀ i (hi : i < xs.length), i < place → q xs[i] = false := by
    intro i hi hlt
    rw [hq, (h i _ (List.getElem?_eq_getElem hi)).mpr hlt]
    rfl
  rcases Nat.lt_or_eq_of_le hplace with hlt | rfl
  · rw [List.findIdx_eq hlt]
    refine ⟨?_, fun i hi => hbefore i (Nat.lt_trans hi hlt) hi⟩
    rw [hq, Bool.not_eq_true', Bool.eq_false_iff]
    exact fun hp => Nat.lt_irrefl _ ((h place _ (List.getElem?_eq_getElem hlt)).mp hp)
  · rw [List.findIdx_eq_length]
    intro x hx
    obtain ⟨i, hi, rfl⟩ := List.getElem_of_mem hx
    exact hbefore i hi hi

end

/-! ## Thresholds -/

/-- The integer has reached the threshold before a place, and it is below the one in that place. Where
there is no threshold, it is not bounded. -/
structure Between (thresholds : List Int64) (v : Int64) (place : Nat) : Prop where
  inside : place ≤ thresholds.length
  reached : ∀ i t, place = i + 1 → thresholds[i]? = some t → t ≤ v
  below : ∀ t, thresholds[place]? = some t → v < t

namespace Bucket

variable {source : String} {thresholds : List Int64} {labels : List String} {b : Bucket} {v w : Int64}

/-- The number of thresholds that an integer has reached. -/
def reached (thresholds : List Int64) (v : Int64) : Nat := thresholds.countP (· ≤ v)

/-- The thresholds that an integer has reached come first. -/
theorem holdsBefore_reached (h : thresholds.Pairwise fun a b => a.toInt < b.toInt) (v : Int64) :
    HoldsBefore (fun t => decide (t ≤ v)) thresholds (reached thresholds v) := by
  refine holdsBefore_countP (h.imp fun {a b} hab => ?_)
  simp only [decide_eq_true_eq, Int64.le_iff_toInt_le]
  omega

theorem reached_le : reached thresholds v ≤ thresholds.length := List.countP_le_length

/-- A larger integer has reached what a smaller one has. -/
theorem reached_mono (h : v ≤ w) : reached thresholds v ≤ reached thresholds w := by
  refine List.countP_mono_left fun t _ => ?_
  simp only [decide_eq_true_eq, Int64.le_iff_toInt_le] at h ⊢
  omega

/-- An integer belongs into one place only, after the thresholds that it has reached. -/
theorem between_iff (h : thresholds.Pairwise fun a b => a.toInt < b.toInt) {place : Nat} :
    Between thresholds v place ↔ place = reached thresholds v := by
  have hsplit := holdsBefore_reached h v
  simp only [HoldsBefore, decide_eq_true_eq] at hsplit
  have hle : reached thresholds v ≤ thresholds.length := reached_le
  constructor
  · intro hbetween
    rcases Nat.lt_trichotomy place (reached thresholds v) with hlt | heq | hgt
    · -- the threshold in the place would have been reached
      have hplace : place < thresholds.length := Nat.lt_of_lt_of_le hlt hle
      have hget := List.getElem?_eq_getElem hplace
      have hbelow := hbetween.below _ hget
      have hreached := (hsplit place _ hget).mpr hlt
      rw [Int64.lt_iff_toInt_lt] at hbelow
      rw [Int64.le_iff_toInt_le] at hreached
      omega
    · exact heq
    · -- the threshold before the place would not have been
      obtain ⟨i, rfl⟩ : ∃ i, place = i + 1 := ⟨place - 1, by omega⟩
      have hget := List.getElem?_eq_getElem (Nat.lt_of_succ_le hbetween.inside)
      have hlt := (hsplit i _ hget).mp (hbetween.reached i _ rfl hget)
      omega
  · rintro rfl
    refine ⟨hle, ?_, ?_⟩
    · intro i t hi hget
      exact (hsplit i t hget).mpr (by omega)
    · intro t hget
      have hnot := mt (hsplit _ t hget).mp (Nat.lt_irrefl _)
      rw [Int64.le_iff_toInt_le] at hnot
      rw [Int64.lt_iff_toInt_lt]
      omega

/-- Bisecting finds the number of thresholds that were reached. -/
theorem place_eq (h : ofThresholds source thresholds labels = .ok b) (v : Int64) :
    b.place v = reached thresholds v := by
  obtain ⟨-, hincreasing⟩ := ofThresholds_isOk_iff.mp ⟨b, h⟩
  obtain ⟨rfl, -⟩ := ofThresholds_eq_ok h
  have hsplit := holdsBefore_reached hincreasing v
  simp only [Int64.le_iff_toInt_le] at hsplit
  refine hsplit.partitionPoint_eq (Nat.zero_le _) ?_ ?_
  · rw [Nat.zero_add, List.size_toArray]
    exact reached_le
  · exact Nat.le_of_eq (by rw [Nat.zero_add, List.size_toArray])

/-- The label of the place is drawn, and nothing is taken from the source of words. -/
theorem draw_eq (h : ofThresholds source thresholds labels = .ok b) {row : Row}
    (hv : (row.value? source).bind (·.asInt?) = some v) :
    ∃ label, labels[reached thresholds v]? = some label ∧
      ∀ words, b.draw row words = (.ok (.text label), words) := by
  have hplace := place_eq h v
  obtain ⟨rfl, hlength⟩ := ofThresholds_eq_ok h
  have hlt : reached thresholds v < labels.length := by
    rw [hlength]
    exact Nat.lt_succ_of_le reached_le
  refine ⟨labels[reached thresholds v], List.getElem?_eq_getElem hlt, ?_⟩
  intro words
  have hlabel : label ⟨source, thresholds.toArray, labels.toArray⟩ v =
      labels[reached thresholds v] := by
    rw [label, hplace, Array.getD_eq_getD_getElem?, List.getElem?_toArray,
      List.getElem?_eq_getElem hlt, Option.getD_some]
  rw [← hlabel]
  simp only [draw, hv]
  rfl

/-- Thresholds make a bucket when they increase and there is one more label than there are of them; a
bucket may have none. Its labels then partition the integers. An integer in the source field of a
row has its place after the thresholds that it has reached, and this is the only place where it
lies between two of them; looking at one threshold after the other finds the same place as
bisecting. There is a label in that place, which is drawn without a word from the source; and
larger integers have no smaller place. -/
theorem labels_partition (source : String) (thresholds : List Int64) (labels : List String) :
    ((∃ b, ofThresholds source thresholds labels = .ok b) ↔
      labels.length = thresholds.length + 1 ∧ thresholds.Pairwise (· < ·)) ∧
    ∀ b, ofThresholds source thresholds labels = .ok b →
      (∀ (row : Row) (v : Int64), (row.value? source).bind (·.asInt?) = some v →
        ∃ (place : Nat) (label : String), place = thresholds.countP (· ≤ v) ∧
          (∀ other, Between thresholds v other ↔ other = place) ∧
          b.place v = place ∧ thresholds.findIdx (v < ·) = place ∧ labels[place]? = some label ∧
          ∀ words, b.draw row words = (.ok (.text label), words)) ∧
      ∀ v w : Int64, v ≤ w → b.place v ≤ b.place w := by
  constructor
  · simp only [Int64.lt_iff_toInt_lt]
    exact ofThresholds_isOk_iff
  · intro b hb
    obtain ⟨-, hincreasing⟩ := ofThresholds_isOk_iff.mp ⟨b, hb⟩
    constructor
    · intro row v hv
      obtain ⟨label, hlabel, hdraw⟩ := draw_eq hb hv
      have hnot : ∀ t : Int64, decide (v < t) = !decide (t ≤ v) := by
        intro t
        rw [← decide_not, decide_eq_decide, Int64.lt_iff_toInt_lt, Int64.le_iff_toInt_le]
        omega
      exact ⟨reached thresholds v, label, rfl, fun _ => between_iff hincreasing, place_eq hb v,
        (holdsBefore_reached hincreasing v).findIdx_eq reached_le hnot, hlabel, hdraw⟩
    · intro v w hle
      rw [place_eq hb, place_eq hb]
      exact reached_mono hle

/-- A row whose age is the second of two thresholds. -/
def ageRow : Row := ⟨7, [("age", .int 65)]⟩

/-- It has reached both thresholds and gets the last label; with one label and no threshold every row
gets that label. -/
theorem labels_partition_ages :
    (∃ b, ofThresholds "age" [18, 65] ["minor", "adult", "senior"] = .ok b ∧
      b.place 17 ≤ b.place 65 ∧ Between [18, 65] 65 2 ∧ b.place 65 = 2 ∧
      ∀ words, b.draw ageRow words = (.ok (.text "senior"), words)) ∧
    (∃ b, ofThresholds "id" [] ["all"] = .ok b ∧
      ∀ words, b.draw ageRow words = (.ok (.text "all"), words)) ∧
    ¬ ∃ b, ofThresholds "age" [18, 18] ["minor", "adult", "senior"] = .ok b := by
  obtain ⟨haccepts, hdraws⟩ := labels_partition "age" [18, 65] ["minor", "adult", "senior"]
  obtain ⟨haccepts', hdraws'⟩ := labels_partition "id" [] ["all"]
  obtain ⟨b, hb⟩ := haccepts.mpr (by decide)
  obtain ⟨b', hb'⟩ := haccepts'.mpr (by decide)
  obtain ⟨hages, hmono⟩ := hdraws b hb
  obtain ⟨place, label, hplace, hbetween, hbisected, -, hlabel, hdraw⟩ := hages ageRow 65 rfl
  obtain ⟨place', label', hplace', -, -, -, hlabel', hdraw'⟩ := (hdraws' b' hb').1 ageRow 7 rfl
  obtain rfl : place = 2 := hplace
  obtain rfl : place' = 0 := hplace'
  cases hlabel
  cases hlabel'
  refine ⟨⟨b, hb, hmono 17 65 (by decide), (hbetween 2).mpr rfl, hbisected, hdraw⟩,
    ⟨b', hb', hdraw'⟩, fun hequal => ?_⟩
  exact absurd ((labels_partition "age" [18, 18] _).1.mp hequal) (by decide)

end Bucket

end SeededRows
