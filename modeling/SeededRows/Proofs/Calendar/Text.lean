/-
  SeededRows.Proofs.Calendar.Text

  The text of a date reads as the date. A padded number is a run of digits with the value of the
  number, and a reader of digits takes the whole run, whatever comes after it. The year is read by
  its four digits, or by its sign and all its digits; the month and the day have two digits each, so
  none is left over. White space, which a reader would skip, is never written.
-/
import SeededRows.Calendar.Text
import SeededRows.Proofs.Calendar.DayNumbers

namespace SeededRows

/-! ## Padded numbers -/

/-- The letters of a number: digits, at least one. -/
structure IsNumeral (ds : List Char) : Prop where
  digits : ∀ c ∈ ds, c.isDigit = true
  nonempty : ds ≠ []

/-- A number starts with a digit, whatever comes after it. -/
theorem IsNumeral.head {ds : List Char} (h : IsNumeral ds) (rest : List Char) :
    ∃ c cs, ds ++ rest = c :: cs ∧ c.isDigit = true := by
  cases ds with
  | nil => exact absurd rfl h.nonempty
  | cons c ds => exact ⟨c, ds ++ rest, rfl, h.digits c List.mem_cons_self⟩

namespace Decimal

theorem toList_padded (width n : Nat) : (padded width n).toList =
    List.replicate (width - (digitChars n).length) '0' ++ digitChars n :=
  String.toList_ofList

/-- Zeros on the left leave the value as it is. -/
theorem ofDigitChars_padded (width n : Nat) : Nat.ofDigitChars 10 (padded width n).toList 0 = n := by
  rw [toList_padded, Nat.ofDigitChars_append, Nat.ofDigitChars_replicate_zero, Nat.mul_zero]
  exact Nat.ofDigitChars_ten_toDigits

theorem digitsValue_padded (width n : Nat) : digitsValue (padded width n).toList = n := by
  rw [digitsValue, ← Nat.ofDigitChars_eq_foldl, ofDigitChars_padded]

theorem isNumeral_padded (width n : Nat) : IsNumeral (padded width n).toList := by
  rw [toList_padded]
  constructor
  · intro c hc
    rcases List.mem_append.mp hc with hzero | hdigit
    · rw [List.eq_of_mem_replicate hzero]
      rfl
    · exact Nat.isDigit_of_mem_toDigits (by decide) (by decide) hdigit
  · intro hnil
    exact Nat.toDigits_ne_nil (List.append_eq_nil_iff.mp hnil).2

/-- A number whose digits fit the width has as many digits as that. -/
theorem length_padded {width n : Nat} (h : (digitChars n).length ≤ width) :
    (padded width n).toList.length = width := by
  rw [toList_padded, List.length_append, List.length_replicate]
  omega

end Decimal

namespace Calendar.Date

open Decimal (padded digitsValue)

/-! ## Numbers that are read -/

theorem isBlank_of_isDigit {c : Char} (h : c.isDigit = true) : Text.isBlank c = false := by
  have hrange : '0'.toNat ≤ c.toNat ∧ c.toNat ≤ '9'.toNat := by
    simpa [Char.isDigit, UInt32.le_iff_toNat_le] using h
  have hlow : '0'.toNat = 48 := rfl
  have hhigh : '9'.toNat = 57 := rfl
  simp only [Text.isBlank, Text.blankRanges, List.any_cons, List.any_nil, Bool.or_false,
    Bool.or_eq_false_iff, decide_eq_false_iff_not]
  omega

/-- No white space comes before a digit. -/
theorem skipBlank_of_isDigit {c : Char} (h : c.isDigit = true) (cs : List Char) :
    skipBlank (c :: cs) = c :: cs := by
  rw [skipBlank, List.dropWhile_cons_of_neg]
  rw [isBlank_of_isDigit h]
  exact Bool.false_ne_true

/-- Whether what comes next ends a number. -/
def Ends (rest : List Char) : Prop := ∀ c ∈ rest.head?, c.isDigit = false

theorem ends_nil : Ends [] := by
  intro c hc
  cases hc

theorem ends_mark (rest : List Char) : Ends ('-' :: rest) := by
  intro c hc
  cases hc
  rfl

/-- A number is read as a whole, if there may be so many digits. -/
theorem readDigits_append {most : Option Nat} {ds rest : List Char} (hds : IsNumeral ds)
    (hrest : Ends rest) (hmost : ∀ limit ∈ most, ds.length ≤ limit)
    (hfits : (Word.signed? (digitsValue ds)).isSome = true) :
    readDigits most (ds ++ rest) = .ok (digitsValue ds, rest) := by
  have hrun : (ds ++ rest).takeWhile Char.isDigit = ds := by
    rw [List.takeWhile_append_of_pos hds.digits]
    cases rest with
    | nil => exact List.append_nil ds
    | cons c rest =>
      rw [List.takeWhile_cons_of_neg (by rw [hrest c rfl]; exact Bool.false_ne_true)]
      exact List.append_nil ds
  obtain ⟨c, cs, hcons, hc⟩ := hds.head rest
  rw [hcons] at hrun ⊢
  cases most with
  | none =>
    simp only [readDigits, hc, if_true, hrun, hfits]
    rw [← hcons, List.drop_left]
  | some limit =>
    simp only [readDigits, hc, if_true, hrun, List.take_of_length_le (hmost limit rfl), hfits]
    rw [← hcons, List.drop_left]

/-- A padded number that is not too large is read back. -/
theorem readDigits_padded {most : Option Nat} {width n : Nat} {rest : List Char} (hrest : Ends rest)
    (hmost : ∀ limit ∈ most, (padded width n).toList.length ≤ limit)
    (hfits : (n : Int) ≤ Int64.maxValue.toInt) :
    readDigits most ((padded width n).toList ++ rest) = .ok (n, rest) := by
  have hmin : Int64.minValue.toInt ≤ 0 := by decide
  have hvalue : digitsValue (padded width n).toList = n := Decimal.digitsValue_padded width n
  have hword : (Word.signed? (digitsValue (padded width n).toList)).isSome = true := by
    rw [hvalue, Word.signed?, if_pos ⟨by omega, hfits⟩]
    rfl
  rw [readDigits_append (Decimal.isNumeral_padded width n) hrest hmost hword, hvalue]

/-! ## Parts of dates -/

/-- A month or a day is read by its two digits. -/
theorem readPart_padded {high n : Nat} {rest : List Char} (hpos : 1 ≤ n) (hle : n ≤ high)
    (hhigh : high < 100) (hrest : Ends rest) :
    readPart high ((padded 2 n).toList ++ rest) = .ok (n, rest) := by
  have hdigits : (Decimal.digitChars n).length ≤ 2 :=
    (Nat.length_toDigits_le_iff (by decide) (by decide)).mpr (by omega)
  have hread : readDigits (some 2) ((padded 2 n).toList ++ rest) = .ok (n, rest) := by
    refine readDigits_padded hrest ?_ ?_
    · rintro limit ⟨⟩
      exact Nat.le_of_eq (Decimal.length_padded hdigits)
    · have hword : (100 : Int) ≤ Int64.maxValue.toInt := by decide
      omega
  obtain ⟨c, cs, hcons, hc⟩ := (Decimal.isNumeral_padded 2 n).head rest
  rw [hcons] at hread ⊢
  rw [readPart, skipBlank_of_isDigit hc, hread]
  exact if_pos ⟨hpos, hle⟩

/-- A number that was read becomes a year with a sign, if it is in range. -/
def signed (sign : Nat → Int) (r : Except Problem (Nat × List Char)) :
    Except Problem (Int × List Char) := do
  let (n, rest) ← r
  if Int32.minValue.toInt ≤ sign n ∧ sign n ≤ Int32.maxValue.toInt then .ok (sign n, rest)
  else .error .outOfRange

/-- The years of the calendar are in range. -/
theorem signed_eq_ok {sign : Nat → Int} {r : Except Problem (Nat × List Char)} {n : Nat} {year : Int}
    {rest : List Char} (hr : r = .ok (n, rest)) (hsign : sign n = year) (hmin : minYear ≤ year)
    (hmax : year ≤ maxYear) : signed sign r = .ok (year, rest) := by
  have hlow : Int32.minValue.toInt ≤ minYear := by decide
  have hhigh : maxYear ≤ Int32.maxValue.toInt := by decide
  subst hr hsign
  exact if_pos ⟨by omega, by omega⟩

theorem readYear_minus (cs : List Char) :
    readYear ('-' :: cs) = signed (-·) (readDigits none cs) := by
  show Except.bind (Except.map _ (readDigits none cs)) _ = _
  cases readDigits none cs <;> rfl

theorem readYear_plus (cs : List Char) :
    readYear ('+' :: cs) = signed (·) (readDigits none cs) := by
  show Except.bind (Except.map _ (readDigits none cs)) _ = _
  cases readDigits none cs <;> rfl

/-- A digit is no sign. -/
theorem readYear_digit {c : Char} (hc : c.isDigit = true) (cs : List Char) :
    readYear (c :: cs) = signed (·) (readDigits (some 4) (c :: cs)) := by
  rw [readYear, skipBlank_of_isDigit hc]
  split
  · rename_i heq
    cases heq
    cases hc
  · rename_i heq
    cases heq
    cases hc
  · cases readDigits (some 4) (c :: cs) <;> rfl

/-- A year is read by its four digits, or by its sign and all its digits. -/
theorem readYear_yearText {year : Int} (hmin : minYear ≤ year) (hmax : year ≤ maxYear)
    {rest : List Char} (hrest : Ends rest) :
    readYear ((yearText year).toList ++ rest) = .ok (year, rest) := by
  have hword : maxYear < Int64.maxValue.toInt ∧ -minYear < Int64.maxValue.toInt := by decide
  rw [yearText]
  by_cases hshort : 0 ≤ year ∧ year ≤ 9999
  · have hdigits : (Decimal.digitChars year.toNat).length ≤ 4 :=
      (Nat.length_toDigits_le_iff (by decide) (by decide)).mpr (by omega)
    have hread : readDigits (some 4) ((padded 4 year.toNat).toList ++ rest) =
        .ok (year.toNat, rest) := by
      refine readDigits_padded hrest ?_ (by omega)
      rintro limit ⟨⟩
      exact Nat.le_of_eq (Decimal.length_padded hdigits)
    obtain ⟨c, cs, hcons, hc⟩ := (Decimal.isNumeral_padded 4 year.toNat).head rest
    rw [hcons] at hread
    rw [if_pos hshort, hcons, readYear_digit hc]
    exact signed_eq_ok hread (Int.toNat_of_nonneg hshort.1) hmin hmax
  · have hread : readDigits none ((padded 4 year.natAbs).toList ++ rest) = .ok (year.natAbs, rest) := by
      refine readDigits_padded hrest ?_ (by omega)
      rintro limit ⟨⟩
    rw [if_neg hshort, String.toList_append, List.append_assoc]
    by_cases hnegative : year < 0
    · rw [if_pos hnegative]
      exact (readYear_minus _).trans (signed_eq_ok hread (by omega) hmin hmax)
    · rw [if_neg hnegative]
      exact (readYear_plus _).trans (signed_eq_ok hread (by omega) hmin hmax)

/-! ## Dates -/

/-- The parts of a date make it up. -/
theorem ofParts?_parts (d : Date) : ofParts? d.year d.month d.day = some d := by
  have hparts : minYear ≤ d.year ∧ d.year ≤ maxYear ∧ 1 ≤ d.day ∧
      d.day ≤ daysInMonth (isLeap d.year) d.month := ⟨d.year_ge, d.year_le, d.day_pos, d.day_le⟩
  rw [ofParts?, dif_pos hparts]

/-- No month is longer than 31 days. -/
theorem day_le_31 (d : Date) : d.day ≤ 31 := by
  have hall : ∀ leap : Bool, ∀ month < 13, daysInMonth leap month ≤ 31 := by decide
  have hmonth := (month_le_year d.day_pos d.day_le).2.1
  exact Nat.le_trans d.day_le (hall (isLeap d.year) d.month (by omega))

/-- The text of a date reads as the date. -/
theorem ofText_text (d : Date) : ofText d.text = .ok d := by
  obtain ⟨hmonth, hmonth', -⟩ := month_le_year d.day_pos d.day_le
  have hday : readPart 31 (padded 2 d.day).toList = .ok (d.day, []) := by
    have hread := readPart_padded d.day_pos d.day_le_31 (by decide) ends_nil
    rwa [List.append_nil] at hread
  have hletters : d.text.toList = (yearText d.year).toList ++ '-' :: ((padded 2 d.month).toList ++
      '-' :: (padded 2 d.day).toList) := by
    simp [text]
  rw [ofText, hletters, read, readYear_yearText d.year_ge d.year_le (ends_mark _)]
  show Except.bind (readPart 12 _) _ = _
  rw [readPart_padded hmonth hmonth' (by decide) (ends_mark _)]
  show Except.bind (readPart 31 _) _ = _
  rw [hday]
  dsimp only [Except.bind]
  rw [if_neg (not_not_intro rfl), ofParts?_parts]

/-- Different dates have different texts. -/
theorem text_injective : Function.Injective text := by
  intro a b h
  exact Except.ok.inj ((ofText_text a).symm.trans ((congrArg ofText h).trans (ofText_text b)))

end Calendar.Date

end SeededRows
