/-
  SeededRows.Proofs.Calendar.DayNumbers

  Dates and their day numbers. The day number orders dates as the calendar does, and every number
  from that of the first date to that of the last one is the number of the date that is found for
  it. So the days between two dates are dates, and counting from the first one reaches each of them
  once.
-/
import Mathlib.Algebra.GroupWithZero.Nat
import Mathlib.Data.List.GetD
import Mathlib.Tactic.ByContra
import SeededRows.Calendar.Date

namespace SeededRows.Calendar

namespace Date

/-! ## Years -/

/-- The number of days of a year. -/
def yearLength (leap : Bool) : Nat := if leap then 366 else 365

theorem sum_monthLengths (leap : Bool) : (monthLengths leap).sum = yearLength leap := by
  cases leap <;> rfl

theorem daysBeforeYear_succ (year : Int) :
    daysBeforeYear (year + 1) = daysBeforeYear year + yearLength (isLeap year) := by
  by_cases hleap : year % 4 = 0 ∧ (year % 100 ≠ 0 ∨ year % 400 = 0)
  · have hlength : yearLength (isLeap year) = 366 := by rw [isLeap, decide_eq_true hleap]; rfl
    rw [hlength, daysBeforeYear, daysBeforeYear]
    omega
  · have hlength : yearLength (isLeap year) = 365 := by rw [isLeap, decide_eq_false hleap]; rfl
    rw [hlength, daysBeforeYear, daysBeforeYear]
    omega

theorem daysBeforeYear_mono {year year' : Int} (h : year ≤ year') :
    daysBeforeYear year ≤ daysBeforeYear year' := by
  rw [daysBeforeYear, daysBeforeYear]
  omega

/-- The year of a day number is the one whose days it lies among. -/
theorem yearOfDay_spec (n : Int) : daysBeforeYear (yearOfDay n).1 + (yearOfDay n).2 = n ∧
    (yearOfDay n).2 < yearLength (isLeap (yearOfDay n).1) := by
  have hcycle : ∀ year : Int, daysBeforeYear (400 * (n / 146097) + year) =
      146097 * (n / 146097) + daysBeforeYear year := by
    intro year
    rw [daysBeforeYear, daysBeforeYear]
    omega
  have hsplit : 146097 * (n / 146097) + n % 146097 = n := Int.mul_ediv_add_emod n 146097
  -- within the cycle the year is the quotient or the year after it
  generalize hwithin : n % 146097 = within at hsplit
  have hrange : 0 ≤ within ∧ within < 146097 := by omega
  obtain ⟨year, hyear, hlow, hhigh⟩ : ∃ year : Int,
      (yearOfDay n) = (400 * (n / 146097) + year, (within - daysBeforeYear year).toNat) ∧
        daysBeforeYear year ≤ within ∧ within < daysBeforeYear (year + 1) := by
    by_cases hguess : daysBeforeYear (within / 366 + 1) ≤ within
    · refine ⟨within / 366 + 1, by simp only [yearOfDay, hwithin, if_pos hguess], hguess, ?_⟩
      rw [daysBeforeYear] at hguess ⊢
      omega
    · refine ⟨within / 366, by simp only [yearOfDay, hwithin, if_neg hguess], ?_, by omega⟩
      rw [daysBeforeYear]
      omega
  have hnext := daysBeforeYear_succ (400 * (n / 146097) + year)
  rw [Int.add_assoc, hcycle, hcycle] at hnext
  rw [hyear]
  dsimp only
  rw [hcycle]
  omega

/-! ## Months -/

/-- What the walk over the months finds: the month whose days the day lies among. -/
theorem locate_spec {lengths : List Nat} {n : Nat} (month : Nat) (h : n < lengths.sum) :
    ∃ i length, lengths[i]? = some length ∧ (locate month lengths n).1 = month + i ∧
      1 ≤ (locate month lengths n).2 ∧ (locate month lengths n).2 ≤ length ∧
      (lengths.take i).sum + ((locate month lengths n).2 - 1) = n := by
  induction lengths generalizing month n with
  | nil => cases h
  | cons length rest ih =>
    rw [locate]
    by_cases hn : n < length
    · rw [if_pos hn]
      exact ⟨0, length, rfl, rfl, Nat.le_add_left 1 n, hn, by simp⟩
    · rw [if_neg hn]
      rw [List.sum_cons] at h
      obtain ⟨i, found, hi, hmonth, hpos, hle, hsum⟩ := ih (n := n - length) (month + 1) (by omega)
      refine ⟨i + 1, found, hi, ?_, hpos, hle, ?_⟩
      · rw [hmonth, Nat.add_assoc, Nat.add_comm 1 i]
      · rw [List.take_succ_cons, List.sum_cons]
        omega

/-- The months before a month, and the month itself, lie within the year. -/
theorem month_le_year {leap : Bool} {month day : Nat} (hpos : 1 ≤ day)
    (hday : day ≤ daysInMonth leap month) : 1 ≤ month ∧ month ≤ 12 ∧
      daysBeforeMonth leap month + daysInMonth leap month ≤ yearLength leap := by
  have hmonth : month < 13 := by
    by_contra hlarge
    have hzero : daysInMonth leap month = 0 := by
      rw [daysInMonth, if_neg (by omega), List.getD_eq_default]
      · change 12 ≤ month - 1
        omega
    omega
  have hyear : ∀ leap : Bool, ∀ month < 13, 0 < daysInMonth leap month → 1 ≤ month ∧ month ≤ 12 ∧
      daysBeforeMonth leap month + daysInMonth leap month ≤ yearLength leap := by decide
  exact hyear leap month hmonth (by omega)

/-- A month is over when a later one begins. -/
theorem month_le_month (leap : Bool) {month month' : Nat} (hpos : 1 ≤ month) (hlt : month < month')
    (hlast : month' ≤ 12) :
    daysBeforeMonth leap month + daysInMonth leap month ≤ daysBeforeMonth leap month' := by
  have hall : ∀ leap : Bool, ∀ month' < 13, ∀ month < month', 1 ≤ month →
      daysBeforeMonth leap month + daysInMonth leap month ≤ daysBeforeMonth leap month' := by decide
  exact hall leap month' (by omega) month hlt hpos

/-! ## Dates in order -/

/-- A date lies within its year. -/
theorem dayNumber_within (d : Date) : daysBeforeYear d.year ≤ d.dayNumber ∧
    d.dayNumber < daysBeforeYear (d.year + 1) := by
  obtain ⟨-, -, hyear⟩ := month_le_year d.day_pos d.day_le
  have hpos := d.day_pos
  have hle := d.day_le
  rw [daysBeforeYear_succ, dayNumber]
  omega

/-- An earlier year, month or day has a smaller day number. -/
theorem dayNumber_lt {a b : Date} (h : b.le a = false) : a.dayNumber < b.dayNumber := by
  rw [le, decide_eq_false_iff_not, not_or, not_and, not_or, not_and] at h
  obtain ⟨hyear, hmonth⟩ := h
  rcases Int.lt_or_eq_of_le (Int.not_lt.mp hyear) with hless | hsame
  · calc a.dayNumber < daysBeforeYear (a.year + 1) := a.dayNumber_within.2
      _ ≤ daysBeforeYear b.year := daysBeforeYear_mono hless
      _ ≤ b.dayNumber := b.dayNumber_within.1
  · obtain ⟨hmonth, hday⟩ := hmonth hsame.symm
    have ha := month_le_year a.day_pos a.day_le
    have hb := month_le_year b.day_pos b.day_le
    have hpos := b.day_pos
    have hle := a.day_le
    rw [dayNumber, dayNumber, hsame]
    rw [hsame] at hle
    rcases Nat.lt_or_eq_of_le (Nat.not_lt.mp hmonth) with hless | heq
    · have hover := month_le_month (isLeap b.year) ha.1 hless hb.2.1
      omega
    · have hless := hday heq.symm
      have hpos' := a.day_pos
      rw [heq]
      omega

/-- Dates of which neither is later are one date. -/
theorem le_antisymm {a b : Date} (h : a.le b = true) (h' : b.le a = true) : a = b := by
  simp only [le, decide_eq_true_eq] at h h'
  obtain ⟨year, month, day⟩ := a
  obtain ⟨year', month', day'⟩ := b
  dsimp only at h h'
  obtain rfl : year = year' := by omega
  obtain rfl : month = month' := by omega
  obtain rfl : day = day' := by omega
  rfl

/-- The day numbers order dates as the calendar does. -/
theorem le_iff_dayNumber_le {a b : Date} : a.le b = true ↔ a.dayNumber ≤ b.dayNumber := by
  constructor
  · intro h
    by_contra hlt
    -- of two dates of which neither is greater, neither has the greater number
    have hba : b.le a = true := by
      by_contra hnot
      exact hlt (Int.le_of_lt (dayNumber_lt (eq_false_of_ne_true hnot)))
    exact hlt (Int.le_of_eq (congrArg dayNumber (le_antisymm h hba)))
  · intro h
    by_contra hnot
    exact absurd (dayNumber_lt (eq_false_of_ne_true hnot)) (Int.not_lt.mpr h)

theorem dayNumber_injective : Function.Injective dayNumber := by
  intro a b h
  have hab : a.le b = true := le_iff_dayNumber_le.mpr (Int.le_of_eq h)
  have hba : b.le a = true := le_iff_dayNumber_le.mpr (Int.le_of_eq h.symm)
  exact le_antisymm hab hba

/-- The days between two dates fit a word of 64 bits. -/
theorem days_between_lt (first last : Date) :
    (last.dayNumber - first.dayNumber).toNat + 1 < UInt64.size := by
  have hfirst := first.dayNumber_within.1
  have hlast := last.dayNumber_within.2
  have hfrom : daysBeforeYear minYear ≤ daysBeforeYear first.year := daysBeforeYear_mono first.year_ge
  have hto : daysBeforeYear (last.year + 1) ≤ daysBeforeYear (maxYear + 1) :=
    daysBeforeYear_mono (Int.add_le_add_right last.year_le 1)
  have hspan : daysBeforeYear (maxYear + 1) - daysBeforeYear minYear < 200000000 := by decide
  have hsize : 200000000 < UInt64.size := by decide
  omega

/-! ## Finding dates -/

/-- The number of a day between two dates is the number of a date. -/
theorem ofDayNumber?_between {first last : Date} {n : Int} (hfirst : first.dayNumber ≤ n)
    (hlast : n ≤ last.dayNumber) : ∃ d, ofDayNumber? n = some d ∧ d.dayNumber = n := by
  obtain ⟨hday, hlength⟩ := yearOfDay_spec n
  obtain ⟨year, dayOfYear, hyear⟩ : ∃ year dayOfYear, yearOfDay n = (year, dayOfYear) := ⟨_, _, rfl⟩
  rw [hyear] at hday hlength
  dsimp only at hday hlength
  rw [← sum_monthLengths] at hlength
  obtain ⟨i, length, hi, hmonth, hpos, hle, hbefore⟩ := locate_spec 1 hlength
  obtain ⟨month, day, hlocate⟩ :
      ∃ month day, locate 1 (monthLengths (isLeap year)) dayOfYear = (month, day) := ⟨_, _, rfl⟩
  rw [hlocate] at hmonth hpos hle hbefore
  dsimp only at hmonth hpos hle hbefore
  have hprevious : month - 1 = i := by omega
  have hlength' : daysInMonth (isLeap year) month = length := by
    rw [daysInMonth, if_neg (by omega), hprevious, List.getD_eq_getElem?_getD, hi, Option.getD_some]
  -- years outside the calendar would put the day outside the two dates
  have hnext := daysBeforeYear_succ year
  rw [sum_monthLengths] at hlength
  have hmin : minYear ≤ year := by
    by_contra hlt
    have hbefore : year + 1 ≤ first.year := by
      have := first.year_ge
      omega
    have hless := daysBeforeYear_mono hbefore
    have hfrom := first.dayNumber_within.1
    omega
  have hmax : year ≤ maxYear := by
    by_contra hlt
    have hafter : last.year + 1 ≤ year := by
      have := last.year_le
      omega
    have hless := daysBeforeYear_mono hafter
    have hto := last.dayNumber_within.2
    omega
  have hparts : minYear ≤ year ∧ year ≤ maxYear ∧ 1 ≤ day ∧ day ≤ daysInMonth (isLeap year) month :=
    ⟨hmin, hmax, hpos, hlength' ▸ hle⟩
  refine ⟨⟨year, month, day, hmin, hmax, hpos, hlength' ▸ hle⟩, ?_, ?_⟩
  · simp only [ofDayNumber?, hyear, hlocate]
    rw [ofParts?, dif_pos hparts]
  · simp only [dayNumber, daysBeforeMonth, hprevious]
    rw [← List.sum_eq_foldr]
    omega

/-- From the first of two dates on, as many days as lie between them are dates between them. -/
theorem addDays?_between {first last : Date} {days : Nat}
    (h : first.dayNumber + days ≤ last.dayNumber) :
    ∃ d, first.addDays? days = some d ∧ first.le d = true ∧ d.le last = true := by
  have hfirst : first.dayNumber ≤ first.dayNumber + days :=
    Int.le_add_of_nonneg_right (Int.natCast_nonneg days)
  obtain ⟨d, hd, hnumber⟩ := ofDayNumber?_between hfirst h
  refine ⟨d, hd, ?_, ?_⟩
  · rw [le_iff_dayNumber_le, hnumber]
    omega
  · rw [le_iff_dayNumber_le, hnumber]
    exact h

/-- A date is found by its day number. -/
theorem ofDayNumber?_dayNumber (d : Date) : ofDayNumber? d.dayNumber = some d := by
  obtain ⟨found, hfound, hnumber⟩ :=
    ofDayNumber?_between (Int.le_refl d.dayNumber) (Int.le_refl d.dayNumber)
  rwa [dayNumber_injective hnumber] at hfound

/-- The dates between two dates, by their offsets from the first one: every offset up to the last
one stands for such a date, every such date has an offset, and later dates have greater ones. -/
structure Counted (first last : Date) (days : Nat) : Prop where
  date : ∀ offset ≤ days, ∃ d, first.addDays? offset = some d ∧ first.le d = true ∧ d.le last = true
  offset : ∀ d, first.le d = true → d.le last = true →
    ∃ offset ≤ days, first.addDays? offset = some d
  order : ∀ {i j : Nat} {a b : Date}, i ≤ days → j ≤ days → first.addDays? i = some a →
    first.addDays? j = some b → (i ≤ j ↔ a.le b = true)

/-- The difference of the day numbers counts the dates. -/
theorem counted {first last : Date} (h : first.le last = true) :
    Counted first last (last.dayNumber - first.dayNumber).toNat := by
  rw [le_iff_dayNumber_le] at h
  have hnumber {offset : Nat} {d : Date} (hle : offset ≤ (last.dayNumber - first.dayNumber).toNat)
      (hd : first.addDays? offset = some d) : d.dayNumber = first.dayNumber + offset := by
    have hfirst : first.dayNumber ≤ first.dayNumber + offset := by omega
    have hlast : first.dayNumber + offset ≤ last.dayNumber := by omega
    obtain ⟨found, hfound, hnumber⟩ := ofDayNumber?_between hfirst hlast
    rwa [Option.some.inj (hfound.symm.trans hd)] at hnumber
  constructor
  · intro offset hle
    exact addDays?_between (by omega)
  · intro d hfirst hlast
    rw [le_iff_dayNumber_le] at hfirst hlast
    refine ⟨(d.dayNumber - first.dayNumber).toNat, by omega, ?_⟩
    have hsum : first.dayNumber + (d.dayNumber - first.dayNumber).toNat = d.dayNumber := by omega
    rw [addDays?, hsum, ofDayNumber?_dayNumber]
  · intro i j a b hi hj ha hb
    rw [le_iff_dayNumber_le, hnumber hi ha, hnumber hj hb]
    omega

end Date

end SeededRows.Calendar
