/-
  SeededRows.Json.Token

  The lexical level of JSON: brackets, separators, texts in quotes and words, where a word is a
  name or a number. A text still has its escapes; its value, and that of a number, is found
  afterwards.
-/
import SeededRows.Json.Basic
import SeededRows.Word

namespace SeededRows.Json

/-- The pieces of a document. -/
inductive Token
  | listOpen
  | listClose
  | recordOpen
  | recordClose
  | colon
  | comma
  /-- A name or a number. -/
  | word (letters : List Char)
  /-- What stands between two quotes. -/
  | quoted (body : List Char)
deriving DecidableEq, Repr

/-- What a scanner is in the middle of; letters are kept in reverse. -/
inductive Scanning
  | nothing
  | word (letters : List Char)
  | quoted (body : List Char)
  /-- Inside quotes, after a backslash. -/
  | escape (body : List Char)

/-- The bracket or separator that a character is. -/
def mark? (c : Char) : Option Token :=
  if c = '[' then some .listOpen
  else if c = ']' then some .listClose
  else if c = '\x7b' then some .recordOpen
  else if c = '\x7d' then some .recordClose
  else if c = ':' then some .colon
  else if c = ',' then some .comma
  else none

/-- Whether a character separates tokens. -/
def isSpace (c : Char) : Bool := c = ' ' ∨ c = '\t' ∨ c = '\n' ∨ c = '\r'

/-- Whether a character can be part of a word. -/
def isWordChar (c : Char) : Bool := c.isAlphanum ∨ c = '-' ∨ c = '+' ∨ c = '.'

/-- The tokens of a text, in reverse before `done`; `none` when a character cannot stand where
it does or a quote is missing. -/
def scan (state : Scanning) (done : List Token) : List Char → Option (List Token)
  | [] =>
    match state with
    | .nothing => some done.reverse
    | .word letters => some ((Token.word letters.reverse :: done).reverse)
    | _ => none
  | c :: rest =>
    match state with
    | .quoted body =>
      if c = '"' then scan .nothing (.quoted body.reverse :: done) rest
      else if c = '\\' then scan (.escape (c :: body)) done rest
      else if c.toNat < 0x20 then none
      else scan (.quoted (c :: body)) done rest
    | .escape body => scan (.quoted (c :: body)) done rest
    | .nothing =>
      if isSpace c then scan .nothing done rest
      else if c = '"' then scan (.quoted []) done rest
      else if isWordChar c then scan (.word [c]) done rest
      else
        match mark? c with
        | some t => scan .nothing (t :: done) rest
        | none => none
    | .word letters =>
      let done' := Token.word letters.reverse :: done
      if isSpace c then scan .nothing done' rest
      else if c = '"' then scan (.quoted []) done' rest
      else if isWordChar c then scan (.word (c :: letters)) done rest
      else
        match mark? c with
        | some t => scan .nothing (t :: done') rest
        | none => none

/-- The tokens of a text. -/
def tokens (s : String) : Option (List Token) := scan .nothing [] s.toList

/-! ## Texts -/

/-- The value of a hexadecimal digit. -/
def hexValue? (c : Char) : Option Nat :=
  if '0' ≤ c ∧ c ≤ '9' then some (c.toNat - '0'.toNat)
  else if 'a' ≤ c ∧ c ≤ 'f' then some (c.toNat - 'a'.toNat + 10)
  else if 'A' ≤ c ∧ c ≤ 'F' then some (c.toNat - 'A'.toNat + 10)
  else none

/-- The value of hexadecimal digits. -/
def hexNumber? (ds : List Char) : Option Nat :=
  ds.foldlM (fun n c => (hexValue? c).map (16 * n + ·)) 0

/-- The character that a letter after a backslash stands for. -/
def shortEscape? (c : Char) : Option Char :=
  if c = '"' ∨ c = '\\' ∨ c = '/' then some c
  else if c = 'b' then some '\x08'
  else if c = 'f' then some '\x0c'
  else if c = 'n' then some '\n'
  else if c = 'r' then some '\r'
  else if c = 't' then some '\t'
  else none

/-- The code points of the body of a text, with the halves of surrogate pairs apart; `none` when
an escape is malformed. -/
def codes : List Char → Option (List Nat)
  | [] => some []
  | '\\' :: 'u' :: a :: b :: c :: d :: rest => do
    let n ← hexNumber? [a, b, c, d]
    return n :: (← codes rest)
  | '\\' :: e :: rest => do
    let c ← shortEscape? e
    return c.toNat :: (← codes rest)
  | c :: rest => if c = '\\' then none else (codes rest).map (c.toNat :: ·)

/-- Whether a code is the first half of a surrogate pair. -/
def isHigh (n : Nat) : Bool := 0xD800 ≤ n ∧ n ≤ 0xDBFF

/-- Whether a code is the second half of a surrogate pair. -/
def isLow (n : Nat) : Bool := 0xDC00 ≤ n ∧ n ≤ 0xDFFF

/-- The characters of codes, surrogate pairs joined; `none` when half a pair stands alone. -/
def joined : List Nat → Option (List Char)
  | [] => some []
  | high :: low :: rest =>
    if isHigh high ∧ isLow low then
      let c := Char.ofNat (0x10000 + (high - 0xD800) * 0x400 + (low - 0xDC00))
      (joined rest).map (c :: ·)
    else if isHigh high ∨ isLow high then none
    else (joined (low :: rest)).map (Char.ofNat high :: ·)
  | [n] => if isHigh n ∨ isLow n then none else some [Char.ofNat n]

/-- The text that the body of a quoted token stands for: `none` when it is malformed, and
`some none` when it stands for no text. -/
def textValue? (body : List Char) : Option (Option String) :=
  (codes body).map fun cs => (joined cs).map String.ofList

/-! ## Numbers -/

/-- Extends a significand by digits as long as it fits a word; the digits left over. -/
def extend (significand : Nat) : List Char → Nat × List Char
  | [] => (significand, [])
  | c :: rest =>
    let n := 10 * significand + Decimal.digitsValue [c]
    if n < UInt64.size then extend n rest else (significand, c :: rest)

/-- The integer or double of an integral number. -/
def integral (negative : Bool) (n : Nat) : Json :=
  if negative then
    if n = 0 ∨ (Word.signed? (-n)).isNone then .float (-(n.toUInt64.toFloat)) else .int (-n)
  else .int n

/-- The value of a number given by its digits before the point, those after it, and the power of
ten. Digits that do not fit the significand count as zeros. -/
def numberValue (negative : Bool) (whole fraction : List Char) (power : Option Int) : Json :=
  let (significand, dropped) := extend 0 whole
  if dropped.isEmpty ∧ fraction.isEmpty ∧ power.isNone then integral negative significand
  else
    let (significand, cut) := extend significand fraction
    let shift : Int := power.getD 0 + dropped.length - (fraction.length - cut.length : Nat)
    match Decimal.scaled? negative significand shift with
    | some x => .float x
    | none => .unreadable

/-- The value of a number; `none` when the word is no number. -/
def number? (letters : List Char) : Option Json :=
  let (negative, ds) := match letters with
    | '-' :: ds => (true, ds)
    | ds => (false, ds)
  let whole := ds.takeWhile Char.isDigit
  let rest := ds.dropWhile Char.isDigit
  let (pointed, fraction, rest) := match rest with
    | '.' :: tail => (true, tail.takeWhile Char.isDigit, tail.dropWhile Char.isDigit)
    | tail => (false, [], tail)
  if whole.isEmpty ∨ (whole.head? = some '0' ∧ 1 < whole.length) ∨ (pointed ∧ fraction.isEmpty) then
    none
  else
    match Decimal.exponentPart? rest with
    | none => none
    | some power => some (numberValue negative whole fraction (if rest.isEmpty then none else some power))

/-- The value of a word. -/
def wordValue? (letters : List Char) : Option Json :=
  let name := String.ofList letters
  if name = "null" then some .null
  else if name = "true" then some (.bool true)
  else if name = "false" then some (.bool false)
  else number? letters

end SeededRows.Json
