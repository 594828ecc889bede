/-
  SeededRows.Proofs.Json.Scalars

  The written forms of texts and numbers. A text in quotes is one token, whose body stands for
  the text again; an integer of 64 bits is one word, whose value is the integer. A double is
  one word too; that the word names the same double is a matter of the digits, and a name for
  it is all that is introduced here.
-/
import Mathlib.Algebra.Group.Int.Defs
import Mathlib.Algebra.Group.Nat.Defs
import Mathlib.Data.List.TakeWhile
import Mathlib.Tactic.SplitIfs
import SeededRows.Json.Reading
import SeededRows.Json.Text

namespace SeededRows.Json

/-! ## Words -/

/-- The letters of one word. -/
def IsWord (letters : List Char) : Prop := ∀ c ∈ letters, isWordChar c = true

instance (letters : List Char) : Decidable (IsWord letters) :=
  List.decidableBAll (fun c => isWordChar c = true) letters

/-- Whether what comes next ends a word. -/
def Ends (rest : List Char) : Prop := ∀ c ∈ rest.head?, isWordChar c = false

theorem Ends.nil : Ends [] := by
  intro c hc
  cases hc

theorem Ends.cons {c : Char} {rest : List Char} (h : isWordChar c = false) : Ends (c :: rest) := by
  intro d hd
  cases hd
  exact h

theorem isWordChar_of_isDigit {c : Char} (h : c.isDigit = true) : isWordChar c = true := by
  simp [isWordChar, Char.isAlphanum, h]

theorem isSpace_of_isWordChar {c : Char} (h : isWordChar c = true) : isSpace c = false := by
  cases hs : isSpace c with
  | false => rfl
  | true =>
    simp only [isSpace, decide_eq_true_eq] at hs
    obtain rfl | rfl | rfl | rfl := hs <;> exact absurd h (by decide)

theorem ne_quote_of_isWordChar {c : Char} (h : isWordChar c = true) : c ≠ '"' := by
  rintro rfl
  exact absurd h (by decide)

/-- Letters extend the word that is being scanned. -/
theorem scan_word_append {more : List Char} (hmore : IsWord more) (letters : List Char)
    (done : List Token) (rest : List Char) :
    scan (.word letters) done (more ++ rest) =
      scan (.word (more.reverse ++ letters)) done rest := by
  induction more generalizing letters with
  | nil => rfl
  | cons c more ih =>
    have hc : isWordChar c = true := hmore c List.mem_cons_self
    have hrest : IsWord more := fun d hd => hmore d (List.mem_cons_of_mem c hd)
    rw [List.cons_append, scan]
    simp only [isSpace_of_isWordChar hc, ne_quote_of_isWordChar hc, hc, if_true, if_false,
      Bool.false_eq_true]
    rw [ih hrest, List.reverse_cons, List.append_assoc, List.singleton_append]

/-- What is not a letter ends the word that is being scanned. -/
theorem scan_word_ends {rest : List Char} (hrest : Ends rest) (letters : List Char)
    (done : List Token) :
    scan (.word letters) done rest = scan .nothing (.word letters.reverse :: done) rest := by
  cases rest with
  | nil => rfl
  | cons c rest =>
    have hc : isWordChar c = false := hrest c rfl
    rw [scan, scan]
    simp only [hc, if_false, Bool.false_eq_true]

/-- A word is scanned as one token. -/
theorem scan_word {letters rest : List Char} (hword : IsWord letters) (hne : letters ≠ [])
    (hrest : Ends rest) (done : List Token) :
    scan .nothing done (letters ++ rest) = scan .nothing (.word letters :: done) rest := by
  cases letters with
  | nil => exact absurd rfl hne
  | cons c letters =>
    have hc : isWordChar c = true := hword c List.mem_cons_self
    have hletters : IsWord letters := fun d hd => hword d (List.mem_cons_of_mem c hd)
    rw [List.cons_append, scan]
    simp only [isSpace_of_isWordChar hc, ne_quote_of_isWordChar hc, hc, if_true, if_false,
      Bool.false_eq_true]
    rw [scan_word_append hletters, scan_word_ends hrest]
    simp

/-! ## Texts -/

/-- The four hexadecimal digits of a control character. -/
def fourDigits (n : Nat) : List Char :=
  List.replicate (4 - (Nat.toDigits 16 n).length) '0' ++ Nat.toDigits 16 n

/-- A character that stands for itself inside quotes. -/
def IsPlain (c : Char) : Prop := c ≠ '"' ∧ c ≠ '\\' ∧ 0x20 ≤ c.toNat

instance (c : Char) : Decidable (IsPlain c) :=
  inferInstanceAs (Decidable (c ≠ '"' ∧ c ≠ '\\' ∧ 0x20 ≤ c.toNat))

/-- How a character is written inside quotes: as it is, as a backslash and a letter for it, or
by its code. -/
theorem escaped_cases (c : Char) :
    (IsPlain c ∧ escaped c = [c]) ∨
    (∃ e, escaped c = ['\\', e] ∧ e ≠ 'u' ∧ shortEscape? e = some c) ∨
    (c.toNat < 0x20 ∧ escaped c = '\\' :: 'u' :: fourDigits c.toNat) := by
  unfold escaped
  -- Seven characters have a letter of their own.
  split_ifs with hquote hback h₁ h₂ h₃ h₄ h₅ hcontrol
  · subst hquote
    exact .inr (.inl ⟨'"', rfl, by decide, by decide⟩)
  · subst hback
    exact .inr (.inl ⟨'\\', rfl, by decide, by decide⟩)
  · subst h₁
    exact .inr (.inl ⟨'b', rfl, by decide, by decide⟩)
  · subst h₂
    exact .inr (.inl ⟨'t', rfl, by decide, by decide⟩)
  · subst h₃
    exact .inr (.inl ⟨'n', rfl, by decide, by decide⟩)
  · subst h₄
    exact .inr (.inl ⟨'f', rfl, by decide, by decide⟩)
  · subst h₅
    exact .inr (.inl ⟨'r', rfl, by decide, by decide⟩)
  · exact .inr (.inr ⟨hcontrol, rfl⟩)
  · exact .inl ⟨⟨hquote, hback, Nat.le_of_not_lt hcontrol⟩, rfl⟩

theorem fourDigits_plain {n : Nat} (h : n < 0x20) : ∀ c ∈ fourDigits n, IsPlain c := by
  have hall : ∀ n < 0x20, (fourDigits n).all (fun c => decide (IsPlain c)) = true := by decide
  simpa only [List.all_eq_true, decide_eq_true_eq] using hall n h

theorem hexNumber?_fourDigits : ∀ n < 0x20, hexNumber? (fourDigits n) = some n := by decide

theorem length_fourDigits : ∀ n < 0x20, (fourDigits n).length = 4 := by decide

/-- Plain characters stay in the text that is being scanned. -/
theorem scan_plain {cs : List Char} (hcs : ∀ c ∈ cs, IsPlain c) (body : List Char)
    (done : List Token) (rest : List Char) :
    scan (.quoted body) done (cs ++ rest) = scan (.quoted (cs.reverse ++ body)) done rest := by
  induction cs generalizing body with
  | nil => rfl
  | cons c cs ih =>
    obtain ⟨hquote, hback, hcode⟩ := hcs c List.mem_cons_self
    rw [List.cons_append, scan]
    simp only [hquote, hback, Nat.not_lt.mpr hcode, if_false]
    rw [ih fun d hd => hcs d (List.mem_cons_of_mem c hd), List.reverse_cons, List.append_assoc,
      List.singleton_append]

/-- A character in its written form stays in the text that is being scanned. -/
theorem scan_escaped (c : Char) (body : List Char) (done : List Token) (rest : List Char) :
    scan (.quoted body) done (escaped c ++ rest) =
      scan (.quoted ((escaped c).reverse ++ body)) done rest := by
  obtain ⟨hplain, hc⟩ | ⟨e, hc, -, -⟩ | ⟨hcode, hc⟩ := escaped_cases c
  · rw [hc]
    exact scan_plain (by simpa using hplain) body done rest
  · rw [hc]
    rfl
  · have hescape : scan (.quoted body) done ('\\' :: 'u' :: (fourDigits c.toNat ++ rest)) =
        scan (.quoted ('u' :: '\\' :: body)) done (fourDigits c.toNat ++ rest) := rfl
    rw [hc, List.cons_append, List.cons_append, hescape,
      scan_plain (fourDigits_plain hcode)]
    simp

/-- A text in quotes is scanned as one token. -/
theorem scan_quoted (s : String) (done : List Token) (rest : List Char) :
    scan .nothing done ((quoted s).toList ++ rest) =
      scan .nothing (.quoted (s.toList.flatMap escaped) :: done) rest := by
  have hbody : ∀ (cs body : List Char),
      scan (.quoted body) done (cs.flatMap escaped ++ '"' :: rest) =
        scan .nothing (.quoted (body.reverse ++ cs.flatMap escaped) :: done) rest := by
    intro cs
    induction cs with
    | nil =>
      intro body
      simp [scan]
    | cons c cs ih =>
      intro body
      rw [List.flatMap_cons, List.append_assoc, scan_escaped, ih]
      simp
  have hopen : scan .nothing done ('"' :: (s.toList.flatMap escaped ++ '"' :: rest)) =
      scan (.quoted []) done (s.toList.flatMap escaped ++ '"' :: rest) := rfl
  rw [quoted, String.toList_ofList, List.cons_append, List.append_assoc, List.singleton_append,
    hopen, hbody]
  rfl

/-- The written form of a character has the code of the character. -/
theorem codes_escaped (c : Char) (rest : List Char) :
    codes (escaped c ++ rest) = (codes rest).map (c.toNat :: ·) := by
  obtain ⟨⟨-, hback, -⟩, hc⟩ | ⟨e, hc, hu, he⟩ | ⟨hcode, hc⟩ := escaped_cases c
  · rw [hc, List.singleton_append, codes]
    · simp [hback]
    · rintro a b x y rest' rfl
      exact absurd rfl hback
    · rintro d rest' rfl
      exact absurd rfl hback
  · rw [hc, List.cons_append, List.singleton_append, codes]
    · simp only [he]
      cases codes rest <;> rfl
    · rintro a b x y rest' rfl
      exact absurd rfl hu
  · have hvalue := hexNumber?_fourDigits c.toNat hcode
    -- `codes` asks for four characters after the letter, so the digits are named one by one.
    match hds : fourDigits c.toNat, length_fourDigits c.toNat hcode with
    | [a, b, x, y], _ =>
      rw [hds] at hvalue
      rw [hc, hds]
      simp only [List.cons_append, List.nil_append, codes, hvalue]
      cases codes rest <;> rfl

theorem codes_flatMap_escaped (cs : List Char) :
    codes (cs.flatMap escaped) = some (cs.map Char.toNat) := by
  induction cs with
  | nil => rfl
  | cons c cs ih => rw [List.flatMap_cons, codes_escaped, ih, List.map_cons, Option.map_some]

theorem isHigh_toNat (c : Char) : isHigh c.toNat = false := by
  have hvalid := c.valid
  simp only [UInt32.isValidChar, Nat.isValidChar] at hvalid
  simp only [isHigh, decide_eq_false_iff_not]
  change ¬ (0xD800 ≤ c.val.toNat ∧ c.val.toNat ≤ 0xDBFF)
  omega

theorem isLow_toNat (c : Char) : isLow c.toNat = false := by
  have hvalid := c.valid
  simp only [UInt32.isValidChar, Nat.isValidChar] at hvalid
  simp only [isLow, decide_eq_false_iff_not]
  change ¬ (0xDC00 ≤ c.val.toNat ∧ c.val.toNat ≤ 0xDFFF)
  omega

/-- The codes of characters are never halves of a pair, so each stands for its character. -/
theorem joined_map_toNat : ∀ cs : List Char, joined (cs.map Char.toNat) = some cs
  | [] => rfl
  | [c] => by simp [joined, isHigh_toNat, isLow_toNat]
  | c :: d :: cs => by
    have ih := joined_map_toNat (d :: cs)
    rw [List.map_cons] at ih
    simp [joined, isHigh_toNat, isLow_toNat, ih]

/-- What a text is written as stands for the text. -/
theorem textValue?_escaped (s : String) :
    textValue? (s.toList.flatMap escaped) = some (some s) := by
  rw [textValue?, codes_flatMap_escaped, Option.map_some, joined_map_toNat, Option.map_some,
    String.ofList_toList]

/-! ## Integers -/

/-- An integer that a signed or an unsigned word of 64 bits can hold. -/
def IsWide (n : Int) : Prop := Int64.minValue.toInt ≤ n ∧ n < UInt64.size

/-- One more character extends the significand that the characters before it make up. -/
theorem extend_append {cs : List Char} {s m : Nat} (h : extend s cs = (m, [])) (c : Char) :
    extend s (cs ++ [c]) = extend m [c] := by
  induction cs generalizing s with
  | nil =>
    cases h
    rfl
  | cons d cs ih =>
    rw [extend] at h
    rw [List.cons_append, extend]
    split at h
    · rename_i hfits
      simp only [hfits, if_true]
      exact ih h
    · cases h

theorem extend_digitChar {m k : Nat} (hk : k < 10) (h : 10 * m + k < UInt64.size) :
    extend m [k.digitChar] = (10 * m + k, []) := by
  have hvalue : Decimal.digitsValue [k.digitChar] = k := by
    simp [Decimal.digitsValue, Nat.toNat_digitChar_sub_48_of_lt_ten hk]
  rw [extend, hvalue]
  simp only [h, if_true]
  rfl

/-- The digits of a number below the size of a word make up a significand. -/
theorem extend_toDigits {n : Nat} (h : n < UInt64.size) :
    extend 0 (Nat.toDigits 10 n) = (n, []) := by
  -- The digits are built from the last one on, which `extend` reads last too.
  induction n using Nat.base_induction 10 (by decide) with
  | single m hm =>
    rw [Nat.toDigits_of_lt_base hm]
    simpa using extend_digitChar (m := 0) hm (by omega)
  | digit m k hk hm ih =>
    rw [← Nat.toDigits_append_toDigits (by decide) hm hk, Nat.toDigits_of_lt_base hk,
      extend_append (ih (by omega)), extend_digitChar hk h]

/-- Only zero starts with a zero. -/
theorem toDigits_head {n : Nat} (h : (Nat.toDigits 10 n).head? = some '0') :
    Nat.toDigits 10 n = ['0'] := by
  induction n using Nat.base_induction 10 (by decide) with
  | single m hm =>
    rw [Nat.toDigits_of_lt_base hm] at h ⊢
    simpa using h
  | digit m k hk hm ih =>
    rw [← Nat.toDigits_append_toDigits (by decide) hm hk, List.head?_append,
      List.head?_eq_some_head Nat.toDigits_ne_nil, Option.some_or,
      ← List.head?_eq_some_head] at h
    have hzero : m = 0 := by
      rw [← Nat.ofDigitChars_ten_toDigits (n := m), ih h]
      rfl
    omega

theorem takeWhile_toDigits (n : Nat) :
    (Nat.toDigits 10 n).takeWhile Char.isDigit = Nat.toDigits 10 n :=
  List.takeWhile_eq_self_iff.mpr fun _ hc =>
    Nat.isDigit_of_mem_toDigits (by decide) (by decide) hc

theorem dropWhile_toDigits (n : Nat) : (Nat.toDigits 10 n).dropWhile Char.isDigit = [] :=
  List.dropWhile_eq_nil_iff.mpr fun _ hc =>
    Nat.isDigit_of_mem_toDigits (by decide) (by decide) hc

theorem toDigits_ne_minus (n : Nat) (cs : List Char) : Nat.toDigits 10 n ≠ '-' :: cs := by
  intro h
  have hdigit := Nat.isDigit_of_mem_toDigits (by decide) (by decide)
    (h ▸ List.mem_cons_self : '-' ∈ Nat.toDigits 10 n)
  exact absurd hdigit (by decide)

/-- Only the digits of zero start with a zero, and they end there. -/
theorem toDigits_no_leading_zero (n : Nat) :
    ¬ ((Nat.toDigits 10 n).head? = some '0' ∧ 1 < (Nat.toDigits 10 n).length) := by
  rintro ⟨hhead, hlong⟩
  rw [toDigits_head hhead] at hlong
  exact absurd hlong (by decide)

/-- The value of decimal digits without a sign. -/
theorem number?_toDigits {n : Nat} (h : n < UInt64.size) :
    number? (Nat.toDigits 10 n) = some (.int n) := by
  unfold number?
  simp [toDigits_ne_minus, takeWhile_toDigits, dropWhile_toDigits, toDigits_no_leading_zero,
    Decimal.exponentPart?, numberValue, extend_toDigits h, integral]

/-- The value of decimal digits after a minus. -/
theorem number?_neg_toDigits {n : Nat} (hpos : 0 < n) (h : n ≤ 2 ^ 63) :
    number? ('-' :: Nat.toDigits 10 n) = some (.int (-n)) := by
  have hword : (Word.signed? (-n)).isNone = false := by
    have hmin : Int64.minValue.toInt = -2 ^ 63 := rfl
    have hmax : Int64.maxValue.toInt = 2 ^ 63 - 1 := rfl
    rw [Word.signed?, if_pos ⟨by omega, by omega⟩]
    rfl
  have hsize : n < UInt64.size := lt_of_le_of_lt h (by decide)
  unfold number?
  simp [takeWhile_toDigits, dropWhile_toDigits, toDigits_no_leading_zero,
    Decimal.exponentPart?, numberValue, extend_toDigits hsize, integral, hword,
    Nat.ne_of_gt hpos]

/-- A word that starts with a digit or a sign is a number. -/
theorem wordValue?_eq_number? {letters : List Char}
    (h : ∀ c ∈ letters.head?, c = '-' ∨ c.isDigit = true) :
    wordValue? letters = number? letters := by
  have hne : ∀ name : String, (∃ c ∈ name.toList.head?, ¬(c = '-' ∨ c.isDigit = true)) →
      String.ofList letters ≠ name := by
    rintro name ⟨c, hc, hletter⟩ rfl
    rw [String.toList_ofList] at hc
    exact hletter (h c hc)
  rw [wordValue?]
  simp only [hne "null" ⟨'n', rfl, by decide⟩, hne "true" ⟨'t', rfl, by decide⟩,
    hne "false" ⟨'f', rfl, by decide⟩, if_false]

/-- The letters of an integer. -/
theorem toList_toString_int (n : Int) :
    (toString n).toList =
      if n < 0 then '-' :: Nat.toDigits 10 n.natAbs else Nat.toDigits 10 n.natAbs := by
  rw [Int.toString_eq_repr, Int.repr_eq_if]
  split_ifs with h hneg hneg
  · omega
  · rw [Nat.toList_repr, show n.toNat = n.natAbs by omega]
  · rw [String.toList_append, Nat.toList_repr, show (-n).toNat = n.natAbs by omega]
    rfl
  · omega

theorem isWord_toDigits (n : Nat) : IsWord (Nat.toDigits 10 n) := fun _ hc =>
  isWordChar_of_isDigit (Nat.isDigit_of_mem_toDigits (by decide) (by decide) hc)

/-- What an integer is written as is a word. -/
theorem isWord_int (n : Int) : IsWord (toString n).toList := by
  rw [toList_toString_int]
  split_ifs with h
  · intro c hc
    rcases List.mem_cons.mp hc with rfl | hc
    · rfl
    · exact isWord_toDigits _ c hc
  · exact isWord_toDigits _

theorem toString_int_ne_nil (n : Int) : (toString n).toList ≠ [] := by
  rw [toList_toString_int]
  split_ifs
  · exact List.cons_ne_nil _ _
  · exact Nat.toDigits_ne_nil

/-- What an integer is written as stands for the integer. -/
theorem wordValue?_int {n : Int} (h : IsWide n) :
    wordValue? (toString n).toList = some (.int n) := by
  obtain ⟨hlow, hhigh⟩ := h
  have hmin : Int64.minValue.toInt = -2 ^ 63 := rfl
  have hsize : (UInt64.size : Int) = 2 ^ 64 := rfl
  rw [toList_toString_int]
  split_ifs with hneg
  · rw [wordValue?_eq_number?, number?_neg_toDigits (by omega) (by omega)]
    · rw [Int.ofNat_natAbs_of_nonpos (by omega), Int.neg_neg]
    · rintro c hc
      cases hc
      exact .inl rfl
  · rw [wordValue?_eq_number?, number?_toDigits (by omega), Int.natAbs_of_nonneg (by omega)]
    intro c hc
    exact .inr (Nat.isDigit_of_mem_toDigits (by decide) (by decide) (List.mem_of_mem_head? hc))

/-! ## Doubles -/

/-- The written form of a double reads as the same double. -/
def ReadsBack (x : Float) : Prop := ofText (compact (.float x)) = some (.float x)

theorem IsWord.append {as bs : List Char} (has : IsWord as) (hbs : IsWord bs) :
    IsWord (as ++ bs) := by
  intro c hc
  rcases List.mem_append.mp hc with hc | hc
  · exact has c hc
  · exact hbs c hc

theorem IsWord.cons {c : Char} {cs : List Char} (hc : isWordChar c = true) (hcs : IsWord cs) :
    IsWord (c :: cs) := by
  intro d hd
  rcases List.mem_cons.mp hd with rfl | hd
  · exact hc
  · exact hcs d hd

theorem IsWord.zeros (n : Nat) : IsWord (List.replicate n '0') := by
  intro c hc
  rw [List.eq_of_mem_replicate hc]
  rfl

theorem isWord_positional (d : Decimal.Digits) : IsWord d.positional.toList := by
  have hdigits : IsWord (Decimal.digitChars d.digits) := isWord_toDigits d.digits
  rw [Decimal.Digits.positional]
  dsimp only
  split_ifs with hexponent hplaces
  · rw [String.toList_ofList]
    exact hdigits.append (.zeros _)
  · rw [String.toList_ofList]
    exact .append (fun c hc => hdigits c (List.mem_of_mem_take hc))
      (.cons rfl fun c hc => hdigits c (List.mem_of_mem_drop hc))
  · rw [String.toList_ofList]
    exact .cons rfl (.cons rfl (.append (.zeros _) hdigits))

theorem isWord_scientific (d : Decimal.Digits) : IsWord d.scientific.toList := by
  have hdigits : IsWord (Decimal.digitChars d.digits) := isWord_toDigits d.digits
  have hsign : IsWord (if d.leadingPower < 0 then "e-" else "e+").toList := by
    split_ifs <;> decide
  rw [Decimal.Digits.scientific]
  simp only [String.toList_append, String.toList_ofList]
  refine .append (.append ?_ hsign) ?_
  · split
    · exact (by decide : IsWord [])
    · rename_i c hc
      rwa [hc] at hdigits
    · rename_i c cs hne hcs
      rw [hcs] at hdigits
      exact .cons (hdigits c List.mem_cons_self)
        (.cons rfl fun d hd => hdigits d (List.mem_cons_of_mem c hd))
  · rw [Nat.toString_eq_repr, Nat.toList_repr]
    exact isWord_toDigits _

theorem isWord_json? {x : Float} {text : String} (h : Decimal.json? x = some text) :
    IsWord text.toList := by
  have hsign : IsWord (if Decimal.isNegative x then "-" else "").toList := by
    split_ifs <;> decide
  have hzero : IsWord "0.0".toList := by decide
  have hplaces : IsWord ".0".toList := by decide
  have hnothing : IsWord "".toList := by decide
  rw [Decimal.json?] at h
  dsimp only at h
  generalize (if Decimal.isNegative x then "-" else "") = sign at h hsign
  -- Zero, whole numbers, numbers with decimal places, and the scientific form.
  split_ifs at h
  all_goals
    cases h
    simp only [String.toList_append]
  · exact hsign.append hzero
  · exact (hsign.append (isWord_positional _)).append hplaces
  · exact (hsign.append (isWord_positional _)).append hnothing
  · exact hsign.append (isWord_scientific _)

/-- What a double is written as is a word: a number, or null. -/
theorem isWord_float (x : Float) : IsWord (scalar (.float x)).toList := by
  rw [scalar]
  cases h : Decimal.json? x with
  | none => exact (by decide : IsWord "null".toList)
  | some text => exact isWord_json? h

/-- The word of a double that reads back stands for the double. -/
theorem ReadsBack.word {x : Float} (h : ReadsBack x) :
    (scalar (.float x)).toList ≠ [] ∧
      wordValue? (scalar (.float x)).toList = some (.float x) := by
  have hcompact : compact (.float x) = scalar (.float x) := by
    rw [compact] <;> nofun
  rw [ReadsBack, hcompact, ofText, tokens] at h
  -- Without any letter there would be no token, and no document to read back.
  have hne : (scalar (.float x)).toList ≠ [] := by
    intro hnil
    rw [hnil] at h
    cases h
  have hscan : scan .nothing [] (scalar (.float x)).toList =
      some [.word (scalar (.float x)).toList] := by
    simpa [scan] using scan_word (isWord_float x) hne .nil []
  refine ⟨hne, ?_⟩
  rw [hscan] at h
  simp only [Option.bind_eq_bind, Option.bind_some, read] at h
  cases hv : wordValue? (scalar (.float x)).toList with
  | none =>
    rw [hv] at h
    cases h
  | some v =>
    rw [hv] at h
    exact h

end SeededRows.Json
