/-
  SeededRows.Proofs.Distribution.Draws

  What the stock distributions draw. Whatever the source of words, a distribution that was built from
  a description draws a value of the kind and the range that the description gives; only a bucket
  reads the row, and it alone can stop, when its source field holds no integer of 64 bits.
-/
import SeededRows.Distribution.Spec
import SeededRows.Proofs.Calendar.DayNumbers
import SeededRows.Proofs.Random.Range

namespace SeededRows

open Calendar (Date)

/-- Two steps succeed when the first one does, and the second one after it. -/
theorem bind_eq_ok {ε α β : Type} {x : Except ε α} {f : α → Except ε β} {b : β} (h : x >>= f = .ok b) :
    ∃ a, x = .ok a ∧ f a = .ok b := by
  cases x with
  | error e => cases h
  | ok a => exact ⟨a, rfl, h⟩

theorem ofFault_eq_ok {α : Type} {r : Except Fault α} {a : α} (h : Stop.ofFault r = .ok a) :
    r = .ok a := by
  cases r with
  | error fault => cases h
  | ok a' =>
    cases h
    rfl

theorem map_eq_ok {ε α β : Type} {r : Except ε α} {f : α → β} {b : β} (h : r.map f = .ok b) :
    ∃ a, r = .ok a ∧ f a = b := by
  cases r with
  | error e => cases h
  | ok a =>
    cases h
    exact ⟨a, rfl, rfl⟩

/-! ## Labels -/

theorem label_mem {labels : List String} {i : Nat} (h : i < labels.length) :
    labels.toArray.getD i "" ∈ labels := by
  rw [Array.getD_eq_getD_getElem?, List.getElem?_toArray, List.getElem?_eq_getElem h, Option.getD_some]
  exact List.getElem_mem h

/-- The place that bisecting finds is not behind the part that it looks at. -/
theorem partitionPoint_le {α : Type} (p : α → Bool) (xs : Array α) (low size : Nat) :
    partitionPoint p xs low size ≤ low + size := by
  fun_induction partitionPoint p xs low size with
  | case1 low => omega
  | case2 low size hsize middle hnone => omega
  | case3 low size hsize middle x hx hp ih => omega
  | case4 low size hsize middle x hx hp ih => omega

namespace Choice

/-- There is a sum for every label but the last one. -/
theorem accumulate_size {weights : List Float} {sums sums' : Array Float} {sum total : Float}
    (h : accumulate sums sum weights = some (sums', total)) :
    sums'.size = sums.size + weights.length := by
  induction weights generalizing sums sum with
  | nil =>
    cases h
    rfl
  | cons w rest ih =>
    rw [accumulate] at h
    split at h
    · rw [ih h, Array.size_push, List.length_cons]
      omega
    · cases h

theorem ofWeights_eq_ok {options : List WeightedLabel} {c : Choice} (h : ofWeights options = .ok c) :
    c.labels = (options.map (·.label)).toArray ∧ c.sums.size < c.labels.size := by
  simp only [ofWeights] at h
  cases options with
  | nil => cases h
  | cons first rest =>
    simp only [List.map_cons] at h
    split at h
    · split at h
      · cases h
      · rename_i sums total hsums
        have hsize := accumulate_size hsums
        split at h
        · cases h
        · split at h
          · cases h
            refine ⟨rfl, ?_⟩
            rw [hsize]
            simp
          · cases h
    · cases h

/-- A choice draws one of its labels. -/
theorem draw_spec {options : List WeightedLabel} {c : Choice} (h : ofWeights options = .ok c)
    (row : Row) (source : Random.Source) :
    ∃ option ∈ options, (c.draw row source).1 = .ok (.text option.label) := by
  obtain ⟨hlabels, hsums⟩ := ofWeights_eq_ok h
  have hplace : c.place source.unit.1 < c.labels.size :=
    Nat.lt_of_le_of_lt (partitionPoint_le _ _ _ _) (by omega)
  rw [hlabels, List.size_toArray] at hplace
  obtain ⟨option, hoption, hlabel⟩ := List.mem_map.mp (label_mem hplace)
  refine ⟨option, hoption, ?_⟩
  rw [hlabel, ← hlabels]
  rfl

end Choice

namespace Bucket

theorem ofThresholds_eq_ok {field : String} {thresholds : List Int64} {labels : List String} {b : Bucket}
    (h : ofThresholds field thresholds labels = .ok b) :
    b = ⟨field, thresholds.toArray, labels.toArray⟩ ∧ labels.length = thresholds.length + 1 := by
  rw [ofThresholds] at h
  split at h
  · cases h
  · rename_i hlength
    split at h
    · cases h
      exact ⟨rfl, of_not_not hlength⟩
    · cases h

/-- A bucket draws one of its labels from an integer in its source field, and stops without one. -/
theorem draw_spec {field : String} {thresholds : List Int64} {labels : List String} {b : Bucket}
    (h : ofThresholds field thresholds labels = .ok b) (row : Row) (source : Random.Source) :
    match (row.value? field).bind (·.asInt?) with
    | some _ => ∃ label ∈ labels, (b.draw row source).1 = .ok (.text label)
    | none => (b.draw row source).1 = .error (.fault (noInteger field)) := by
  obtain ⟨rfl, hlength⟩ := ofThresholds_eq_ok h
  cases hinteger : (row.value? field).bind (·.asInt?) with
  | none =>
    simp only [draw, hinteger]
    rfl
  | some n =>
    have hplace : (Bucket.mk field thresholds.toArray labels.toArray).place n < labels.length :=
      Nat.lt_of_le_of_lt (partitionPoint_le _ _ _ _) (by simp only [List.size_toArray]; omega)
    refine ⟨_, label_mem hplace, ?_⟩
    simp only [draw, hinteger]
    rfl

end Bucket

/-! ## Ranges -/

theorem IntRange.ofEnds_eq_ok {min max : Int64} {r : IntRange} (h : ofEnds min max = .ok r) :
    ∃ hle : min.toInt ≤ max.toInt, r = ⟨min, max, hle⟩ := by
  rw [ofEnds] at h
  split at h
  · rename_i hle
    cases h
    exact ⟨hle, rfl⟩
  · cases h

theorem IntRange.ofEnds_isOk_iff {min max : Int64} :
    (∃ range, ofEnds min max = .ok range) ↔ min.toInt ≤ max.toInt := by
  constructor
  · rintro ⟨range, h⟩
    exact (ofEnds_eq_ok h).1
  · intro hle
    exact ⟨_, dif_pos hle⟩

theorem IntRange.draw_spec {min max : Int64} {r : IntRange} (h : ofEnds min max = .ok r) (row : Row)
    (source : Random.Source) : ∃ n : Int64, (r.draw row source).1 = .ok (.int n) ∧
      min.toInt ≤ n.toInt ∧ n.toInt ≤ max.toInt := by
  obtain ⟨hle, rfl⟩ := ofEnds_eq_ok h
  exact ⟨_, rfl, Random.Source.between_spec hle source⟩

theorem DateRange.ofEnds_eq_ok {min max : Date} {r : DateRange} (h : ofEnds min max = .ok r) :
    min.le max = true ∧ r = ⟨min, (max.dayNumber - min.dayNumber).toNat⟩ := by
  rw [ofEnds] at h
  split at h
  · rename_i hle
    cases h
    exact ⟨hle, rfl⟩
  · cases h

theorem DateRange.ofEnds_isOk_iff {min max : Date} :
    (∃ range, ofEnds min max = .ok range) ↔ min.le max = true := by
  constructor
  · rintro ⟨range, h⟩
    exact (ofEnds_eq_ok h).1
  · intro hle
    exact ⟨_, if_pos hle⟩

/-- A draw of a date range is the date at the offset that is taken. -/
theorem DateRange.draw_of_offset {r : DateRange} {source : Random.Source} {d : Date}
    (h : r.min.addDays? (source.below64 (r.days + 1)).1 = some d) (row : Row) :
    (r.draw row source).1 = .ok (.date d) := by
  simp only [draw, bind, ExceptT.bind, ExceptT.mk, StateT.bind, Draw.take, ExceptT.bindCont, h]
  rfl

/-- No draw of a date range leaves the calendar. -/
theorem DateRange.draw_spec {min max : Date} {r : DateRange} (h : ofEnds min max = .ok r) (row : Row)
    (source : Random.Source) : ∃ d : Date, (r.draw row source).1 = .ok (.date d) ∧
      min.le d = true ∧ d.le max = true := by
  obtain ⟨hle, rfl⟩ := ofEnds_eq_ok h
  rw [Date.le_iff_dayNumber_le] at hle
  -- One more than the number of days between the ends still fits the words that are drawn from.
  have hdays := Date.days_between_lt min max
  have hoffset : (source.below64 ((max.dayNumber - min.dayNumber).toNat + 1)).1 <
      (max.dayNumber - min.dayNumber).toNat + 1 :=
    source.below64_lt (Nat.succ_pos _) (Nat.le_of_lt hdays)
  have hreach : min.dayNumber + (source.below64 ((max.dayNumber - min.dayNumber).toNat + 1)).1 ≤
      max.dayNumber := by omega
  obtain ⟨d, hd, hmin, hmax⟩ := Date.addDays?_between hreach
  refine ⟨d, ?_, hmin, hmax⟩
  apply draw_of_offset
  exact hd

/-! ## Described distributions -/

namespace DistributionSpec

/-- The values that a description allows. -/
def Allows : DistributionSpec → Value → Prop
  | bool _, v => ∃ b, v = .bool b
  | intRange min max, v => ∃ n : Int64, v = .int n ∧ min.toInt ≤ n.toInt ∧ n.toInt ≤ max.toInt
  | floatRange _ _, v => ∃ x, v = .float x
  | choice options, v => ∃ option ∈ options, v = .text option.label
  | uuid, v => ∃ s, v = .uuid s
  | dateRange min max, v => ∃ first last d, readDate min = .ok first ∧ readDate max = .ok last ∧
      v = .date d ∧ first.le d = true ∧ d.le last = true
  | bucket _ _ labels, v => ∃ label ∈ labels, v = .text label

/-- A description of a bucket whose source field holds no integer of 64 bits in a row. -/
def Misses (d : DistributionSpec) (row : Row) (field : String) : Prop :=
  (∃ thresholds labels, d = .bucket field thresholds labels) ∧
    (row.value? field).bind (·.asInt?) = none

/-- What a draw of a described distribution may give: a bucket that misses its integer stops, and any
other draw gives an allowed value. -/
structure Drawn (spec : DistributionSpec) (row : Row) (r : Except Stop Value) : Prop where
  stops : ∀ field, spec.Misses row field → r = .error (.fault (Bucket.noInteger field))
  draws : (∀ field, ¬ spec.Misses row field) → ∃ v, r = .ok v ∧ spec.Allows v

/-- A distribution that is no bucket does not look at the row. -/
theorem Drawn.of_value {spec : DistributionSpec} {row : Row} {r : Except Stop Value} {v : Value}
    (hspec : ∀ field thresholds labels, spec ≠ .bucket field thresholds labels)
    (hv : r = .ok v) (hallows : spec.Allows v) : spec.Drawn row r := by
  refine ⟨?_, fun _ => ⟨v, hv, hallows⟩⟩
  rintro field ⟨⟨thresholds, labels, hbucket⟩, -⟩
  exact absurd hbucket (hspec field thresholds labels)

/-- Every draw of a distribution that was built from a description is one that it may give. -/
theorem build_draw {spec : DistributionSpec} {d : Distribution} (h : spec.build = .ok d) (row : Row)
    (source : Random.Source) : spec.Drawn row (d row source).1 := by
  cases spec with
  | bool p =>
    obtain ⟨event, -, rfl⟩ := map_eq_ok (ofFault_eq_ok h)
    exact .of_value (fun _ _ _ heq => nomatch heq) rfl ⟨_, rfl⟩
  | intRange min max =>
    obtain ⟨range, hrange, rfl⟩ := map_eq_ok (ofFault_eq_ok h)
    obtain ⟨n, hn, hbounds⟩ := IntRange.draw_spec hrange row source
    exact .of_value (fun _ _ _ heq => nomatch heq) hn ⟨n, rfl, hbounds⟩
  | floatRange min max =>
    obtain ⟨range, -, rfl⟩ := map_eq_ok (ofFault_eq_ok h)
    exact .of_value (fun _ _ _ heq => nomatch heq) rfl ⟨_, rfl⟩
  | choice options =>
    obtain ⟨choice, hchoice, rfl⟩ := map_eq_ok h
    obtain ⟨option, hoption, hdraw⟩ := Choice.draw_spec hchoice row source
    exact .of_value (fun _ _ _ heq => nomatch heq) hdraw ⟨option, hoption, rfl⟩
  | uuid =>
    cases h
    exact .of_value (fun _ _ _ heq => nomatch heq) rfl ⟨_, rfl⟩
  | dateRange min max =>
    obtain ⟨first, hmin, h⟩ := bind_eq_ok (ofFault_eq_ok h)
    obtain ⟨last, hmax, h⟩ := bind_eq_ok h
    obtain ⟨range, hrange, h⟩ := bind_eq_ok h
    cases h
    obtain ⟨day, hday, hbounds⟩ := DateRange.draw_spec hrange row source
    exact .of_value (fun _ _ _ heq => nomatch heq) hday ⟨first, last, day, hmin, hmax, rfl, hbounds⟩
  | bucket field thresholds labels =>
    -- the only kind that reads the row
    obtain ⟨bucket, hbucket, rfl⟩ := map_eq_ok (ofFault_eq_ok h)
    have hdraw := Bucket.draw_spec hbucket row source
    constructor
    · rintro field' ⟨⟨thresholds', labels', heq⟩, hinteger⟩
      cases heq
      rw [hinteger] at hdraw
      exact hdraw
    · intro hreads
      cases hinteger : (row.value? field).bind (·.asInt?) with
      | none => exact absurd ⟨⟨thresholds, labels, rfl⟩, hinteger⟩ (hreads field)
      | some n =>
        rw [hinteger] at hdraw
        obtain ⟨label, hlabel, hvalue⟩ := hdraw
        exact ⟨_, hvalue, label, hlabel, rfl⟩

end DistributionSpec

end SeededRows
