/-
  SeededRows.Proofs.Distribution.Ranges

  A range of integers or dates draws what lies between its ends, all of it and nothing else. The
  ends may be as far apart as the integers and the calendar allow: the integers of a range are
  counted by words of 64 bits, the widest range by all of them, and the dates by their offsets from
  the first one. The ends of a described range of dates are texts, and the texts of two dates
  describe the range between those dates.
-/
import SeededRows.Proofs.Calendar.Text
import SeededRows.Proofs.Distribution.Draws

namespace SeededRows

open Calendar (Date)

/-! ## What is drawn -/

/-- A distribution that draws the allowed values: whatever the row and the source, it draws one of
them, and each of them is drawn from some source. -/
structure DrawsExactly (d : Distribution) (Allowed : Value → Prop) : Prop where
  allowed : ∀ row source, ∃ v, (d row source).1 = .ok v ∧ Allowed v
  all : ∀ v, Allowed v → ∃ source, ∀ row, (d row source).1 = .ok v

/-- The integers between two ends. -/
def IntsBetween (min max : Int64) (v : Value) : Prop :=
  ∃ n : Int64, v = .int n ∧ min.toInt ≤ n.toInt ∧ n.toInt ≤ max.toInt

/-- The dates between two dates. -/
def DatesBetween (min max : Date) (v : Value) : Prop :=
  ∃ d, v = .date d ∧ min.le d = true ∧ d.le max = true

theorem IntRange.draws_exactly {min max : Int64} {r : IntRange} (h : ofEnds min max = .ok r) :
    DrawsExactly r.draw (IntsBetween min max) := by
  constructor
  · intro row source
    obtain ⟨n, hn, hbetween⟩ := draw_spec h row source
    exact ⟨.int n, hn, n, rfl, hbetween⟩
  · rintro v ⟨n, rfl, hmin, hmax⟩
    obtain ⟨-, rfl⟩ := ofEnds_eq_ok h
    obtain ⟨source, hsource⟩ := Random.Source.exists_between hmin hmax
    refine ⟨source, fun row => ?_⟩
    show Except.ok (Value.int (source.between min max).1) = _
    rw [hsource]

theorem DateRange.draws_exactly {min max : Date} {r : DateRange} (h : ofEnds min max = .ok r) :
    DrawsExactly r.draw (DatesBetween min max) := by
  constructor
  · intro row source
    obtain ⟨d, hd, hbetween⟩ := draw_spec h row source
    exact ⟨.date d, hd, d, rfl, hbetween⟩
  · rintro v ⟨d, rfl, hmin, hmax⟩
    obtain ⟨hle, rfl⟩ := ofEnds_eq_ok h
    obtain ⟨offset, hoffset, hd⟩ := (Date.counted hle).offset d hmin hmax
    obtain ⟨source, hsource⟩ := Random.Source.exists_below64 (Nat.lt_succ_of_le hoffset)
      (Nat.le_of_lt (Date.days_between_lt min max))
    refine ⟨source, fun row => draw_of_offset ?_ row⟩
    rw [hsource]
    exact hd

/-- Ranges are built from ends that are not reversed, and draw what lies between them. The integers
may be all those of 64 bits. The offsets of a range of dates, from 0 to its number of days, are the
dates between its ends, each of them once, so no draw leaves the calendar. -/
theorem ranges_draw_exactly :
    (∀ min max : Int64, (min.toInt ≤ max.toInt ↔ ∃ r, IntRange.ofEnds min max = .ok r) ∧
      ∀ r, IntRange.ofEnds min max = .ok r → DrawsExactly r.draw (IntsBetween min max)) ∧
    ∀ min max : Date, (min.le max = true ↔ ∃ r, DateRange.ofEnds min max = .ok r) ∧
      ∀ r, DateRange.ofEnds min max = .ok r → r.min = min ∧ Date.Counted min max r.days ∧
        DrawsExactly r.draw (DatesBetween min max) := by
  constructor
  · intro min max
    exact ⟨IntRange.ofEnds_isOk_iff.symm, fun r hr => IntRange.draws_exactly hr⟩
  · intro min max
    refine ⟨DateRange.ofEnds_isOk_iff.symm, fun r hr => ?_⟩
    have hexact := DateRange.draws_exactly hr
    obtain ⟨hle, rfl⟩ := DateRange.ofEnds_eq_ok hr
    exact ⟨rfl, Date.counted hle, hexact⟩

/-- The widest ranges: all integers of 64 bits, and all dates of the calendar. -/
theorem ranges_draw_exactly_widest :
    (∃ r, IntRange.ofEnds Int64.minValue Int64.maxValue = .ok r ∧
      DrawsExactly r.draw (IntsBetween Int64.minValue Int64.maxValue)) ∧
    ∃ first last : Date, first.text = "-262143-01-01" ∧ last.text = "+262142-12-31" ∧
      ∃ r, DateRange.ofEnds first last = .ok r ∧ r.days = 191491528 ∧
        Date.Counted first last r.days ∧ DrawsExactly r.draw (DatesBetween first last) := by
  constructor
  · obtain ⟨haccepts, hdraws⟩ := ranges_draw_exactly.1 Int64.minValue Int64.maxValue
    obtain ⟨r, hr⟩ := haccepts.mp (by decide)
    exact ⟨r, hr, hdraws r hr⟩
  · let first : Date := ⟨-262143, 1, 1, by decide, by decide, by decide, by decide⟩
    let last : Date := ⟨262142, 12, 31, by decide, by decide, by decide, by decide⟩
    obtain ⟨haccepts, hdraws⟩ := ranges_draw_exactly.2 first last
    obtain ⟨r, hr⟩ := haccepts.mp (by decide)
    obtain ⟨-, rfl⟩ := DateRange.ofEnds_eq_ok hr
    obtain ⟨-, hcounted, hexact⟩ := hdraws _ hr
    exact ⟨first, last, by decide, by decide, _, hr, by decide, hcounted, hexact⟩

/-! ## Texts of dates -/

theorem readDate_text (d : Date) : readDate d.text = .ok d := by
  rw [readDate, Date.ofText_text]

/-- The texts of two dates describe the range between them, or fail as it does. -/
theorem DistributionSpec.build_dateRange_text (a b : Date) : (dateRange a.text b.text).build =
    Stop.ofFault ((DateRange.ofEnds a b).map (·.draw)) := by
  rw [build, readDate_text, readDate_text]
  show Stop.ofFault ((DateRange.ofEnds a b).bind fun range => .ok range.draw) = _
  cases DateRange.ofEnds a b <;> rfl

/-- The text of a date, as it is shown and as it is written into a table, reads as the date, so
different dates have different texts, and the texts of two dates that are not reversed describe the
range between those dates. -/
theorem date_texts_read_back :
    (∀ d : Date, readDate (Value.date d).display = .ok d ∧
      (Value.date d).cell = (Value.date d).display) ∧
    (∀ a b : Date, (Value.date a).display = (Value.date b).display → a = b) ∧
    ∀ a b : Date, a.le b = true → ∃ range, DateRange.ofEnds a b = .ok range ∧
      (DistributionSpec.dateRange (Value.date a).display (Value.date b).display).build =
        .ok range.draw := by
  refine ⟨fun d => ⟨readDate_text d, rfl⟩, fun a b h => Date.text_injective h, ?_⟩
  intro a b hle
  have hrange : DateRange.ofEnds a b = .ok ⟨a, (b.dayNumber - a.dayNumber).toNat⟩ := if_pos hle
  refine ⟨_, hrange, ?_⟩
  have hbuild := DistributionSpec.build_dateRange_text a b
  rw [hrange] at hbuild
  exact hbuild

/-- A leap day before year 0 and the first day with a year of five digits. -/
theorem date_texts_read_back_long_years : ∃ a b : Date, (Value.date a).display = "-0004-02-29" ∧
    (Value.date b).display = "+10000-01-01" ∧ readDate "-0004-02-29" = .ok a ∧
    readDate "+10000-01-01" = .ok b ∧ (Value.date a).display ≠ (Value.date b).display ∧
    ∃ range, DateRange.ofEnds a b = .ok range ∧
      (DistributionSpec.dateRange "-0004-02-29" "+10000-01-01").build = .ok range.draw := by
  let a : Date := ⟨-4, 2, 29, by decide, by decide, by decide, by decide⟩
  let b : Date := ⟨10000, 1, 1, by decide, by decide, by decide, by decide⟩
  have ha : (Value.date a).display = "-0004-02-29" := by decide
  have hb : (Value.date b).display = "+10000-01-01" := by decide
  have hreads := date_texts_read_back.1
  have hdiffer := date_texts_read_back.2.1 a b
  have hrange := date_texts_read_back.2.2 a b (by decide)
  have hreada := (hreads a).1
  have hreadb := (hreads b).1
  rw [ha] at hreada
  rw [hb] at hreadb
  rw [ha, hb] at hrange
  exact ⟨a, b, ha, hb, hreada, hreadb, fun h => absurd (hdiffer h) (by decide), hrange⟩

end SeededRows
