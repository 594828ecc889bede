/-
  SeededRows.Proofs.Json.Values

  What documents of values show. Truth values, numbers and texts are shown as they are; a double that
  is no finite number, for which a document has no number, is shown as missing. A date is shown by a
  text that reads as the date, a time of day by the digits of its parts, and a moment by both. What a
  document shows is said letter by letter, apart from how documents are written; that what is written
  shows the value comes down to padded numbers, which have the digits of their values.
-/
import Mathlib.Data.List.Forall2
import SeededRows.Json.Value
import SeededRows.Proofs.Calendar.Text

namespace SeededRows

open Calendar (Date Moment TimeOfDay)

/-! ## Numbers of some digits -/

/-- The letters of a number that has so many digits. -/
structure IsNumeralOf (width n : Nat) (ds : List Char) : Prop extends IsNumeral ds where
  length : ds.length = width
  value : Nat.ofDigitChars 10 ds 0 = n

/-- A padded number that its width has room for. -/
theorem Decimal.isNumeralOf_padded {width n : Nat} (hwidth : 0 < width) (h : n < 10 ^ width) :
    IsNumeralOf width n (padded width n).toList where
  toIsNumeral := isNumeral_padded width n
  length := length_padded ((Nat.length_toDigits_le_iff (by decide) hwidth).mpr h)
  value := ofDigitChars_padded width n

/-! ## Times of day -/

namespace Calendar

/-- The letters of a fraction of a second, counted in nanoseconds: none for a whole second, otherwise a
point and one to three groups of three digits, the last of which is not all zeros. -/
inductive IsFraction : Nat → List Char → Prop
  | whole : IsFraction 0 []
  | groups {count n nanos : Nat} {ds : List Char} (hsome : 1 ≤ count) (hfew : count ≤ 3)
    (hds : IsNumeralOf (3 * count) n ds) (hlast : n % 1000 ≠ 0)
    (hnanos : nanos = n * 1000 ^ (3 - count)) : IsFraction nanos ('.' :: ds)

/-- The texts that show a time of day: the hour, the minute and the second in two digits each, a leap
second as second 60, and the fraction of the second. -/
def TimeOfDay.ShownBy (t : TimeOfDay) (s : String) : Prop :=
  ∃ hour minute second fraction,
    s.toList = hour ++ ':' :: (minute ++ ':' :: (second ++ fraction)) ∧
    IsNumeralOf 2 t.hour hour ∧ IsNumeralOf 2 t.minute minute ∧
    IsNumeralOf 2 (t.second + t.nanos / 1000000000) second ∧
    IsFraction (t.nanos % 1000000000) fraction

/-- The texts that show a moment: one that reads as its date, and one that shows its time of day. -/
def Moment.ShownBy (m : Moment) (s : String) : Prop :=
  ∃ date time, s = date ++ "T" ++ time ∧ Date.ofText date = .ok m.date ∧ m.time.ShownBy time

/-- A padded number of groups after a point is a fraction. -/
theorem IsFraction.padded (count : Nat) {n nanos : Nat} (hsome : 1 ≤ count) (hfew : count ≤ 3)
    (hlt : n < 10 ^ (3 * count)) (hlast : n % 1000 ≠ 0) (hnanos : nanos = n * 1000 ^ (3 - count)) :
    IsFraction nanos ("." ++ Decimal.padded (3 * count) n).toList := by
  rw [String.toList_append]
  exact .groups hsome hfew (Decimal.isNumeralOf_padded (by omega) hlt) hlast hnanos

theorem TimeOfDay.isFraction_fractionText (t : TimeOfDay) :
    IsFraction (t.nanos % 1000000000) t.fractionText.toList := by
  have hlt : t.nanos % 1000000000 < 1000000000 := Nat.mod_lt _ (by decide)
  rw [fractionText]
  generalize t.nanos % 1000000000 = nanos at hlt ⊢
  -- as many groups are written as are needed, and the last of them is needed
  by_cases hwhole : nanos = 0
  · rw [if_pos hwhole, hwhole]
    exact .whole
  · rw [if_neg hwhole]
    by_cases hmillis : nanos % 1000000 = 0
    · rw [if_pos hmillis]
      exact .padded 1 (by decide) (by decide) (by omega) (by omega) (by omega)
    · rw [if_neg hmillis]
      by_cases hmicros : nanos % 1000 = 0
      · rw [if_pos hmicros]
        exact .padded 2 (by decide) (by decide) (by omega) (by omega) (by omega)
      · rw [if_neg hmicros]
        exact .padded 3 (by decide) (by decide) (by omega) hmicros (by omega)

/-- The precise text of a time of day shows it. -/
theorem TimeOfDay.shown_preciseText (t : TimeOfDay) : t.ShownBy t.preciseText := by
  have hhour := t.hour_lt
  have hminute := t.minute_lt
  have hsecond := t.second_lt
  have hnanos := t.nanos_lt
  refine ⟨_, _, _, _, ?_, Decimal.isNumeralOf_padded Nat.two_pos (by omega),
    Decimal.isNumeralOf_padded Nat.two_pos (by omega),
    Decimal.isNumeralOf_padded Nat.two_pos (by omega), t.isFraction_fractionText⟩
  simp [preciseText, text]

theorem Moment.shown_preciseText (m : Moment) : m.ShownBy m.preciseText :=
  ⟨m.date.text, m.time.preciseText, rfl, m.date.ofText_text, m.time.shown_preciseText⟩

end Calendar

/-! ## Values -/

namespace Value

/-- What documents show values. -/
inductive ShownBy : Value → Json → Prop
  | null : ShownBy .null .null
  | bool (b : Bool) : ShownBy (.bool b) (.bool b)
  | int (n : Int64) : ShownBy (.int n) (.int n.toInt)
  | uint (n : UInt64) : ShownBy (.uint n) (.int n.toNat)
  | float {x : Float} (h : x.isFinite = true) : ShownBy (.float x) (.float x)
  | noNumber {x : Float} (h : x.isFinite = false) : ShownBy (.float x) .null
  | text (s : String) : ShownBy (.text s) (.text s)
  | uuid (s : String) : ShownBy (.uuid s) (.text s)
  | date {d : Date} {s : String} (h : Date.ofText s = .ok d) : ShownBy (.date d) (.text s)
  | time {t : TimeOfDay} {s : String} (h : t.ShownBy s) : ShownBy (.time t) (.text s)
  | timestamp {m : Moment} {s : String} (h : m.ShownBy s) : ShownBy (.timestamp m) (.text s)

/-- The document of a value shows it. -/
theorem shown_json (v : Value) : v.ShownBy v.json := by
  cases v with
  | null => exact .null
  | bool b => exact .bool b
  | int n => exact .int n
  | uint n => exact .uint n
  | float x =>
    rw [json, Json.ofFloat]
    cases hx : x.isFinite with
    | true => exact .float hx
    | false => exact .noNumber hx
  | text s => exact .text s
  | uuid s => exact .uuid s
  | date d => exact .date d.ofText_text
  | time t => exact .time t.shown_preciseText
  | timestamp m => exact .timestamp m.shown_preciseText

/-- What documents show several values: lists of a document for each of them, in their order. -/
def AllShownBy (vs : List Value) (doc : Json) : Prop :=
  ∃ items, doc = .list items ∧ List.Forall₂ ShownBy vs items

theorem allShown_json (vs : List Value) : AllShownBy vs (.list (vs.map json)) := by
  refine ⟨_, rfl, ?_⟩
  rw [List.forall₂_map_right_iff, List.forall₂_same]
  exact fun v _ => v.shown_json

end Value

end SeededRows
