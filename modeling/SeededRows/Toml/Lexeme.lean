/-
  SeededRows.Toml.Lexeme

  The lexical level of TOML. Every reader takes a text apart into what it reads and the rest.
-/
import SeededRows.Json.Token

namespace SeededRows.Toml

/-- What a reader makes of the beginning of a text, and the rest of the text. -/
abbrev Read (α : Type) := List Char → Option (α × List Char)

/-! ## Space and comments -/

/-- Whether a character is space within a line. -/
def isSpace (c : Char) : Bool := c = ' ' ∨ c = '\t'

/-- Drops space within a line. -/
def skipSpace (cs : List Char) : List Char := cs.dropWhile isSpace

/-- Whether a character can stand in a text that ends with the line: a tab, or anything but
control characters. -/
def isPlain (c : Char) : Bool := c = '\t' ∨ (0x20 ≤ c.toNat ∧ c.toNat ≠ 0x7F)

/-- What follows a line end. -/
def afterNewline? : List Char → Option (List Char)
  | '\n' :: rest => some rest
  | '\r' :: '\n' :: rest => some rest
  | _ => none

/-- Drops a comment up to the end of its line. -/
def skipComment : List Char → List Char
  | '#' :: rest => rest.dropWhile isPlain
  | cs => cs

/-- What follows the rest of a line that holds nothing but space and a comment. -/
def afterLine? (cs : List Char) : Option (List Char) :=
  match skipComment (skipSpace cs) with
  | [] => some []
  | cs => afterNewline? cs

/-- Drops space, line ends and comments, where `inComment` tells whether a comment goes on. -/
def skipBlank (inComment : Bool) : List Char → List Char
  | [] => []
  | '\r' :: '\n' :: rest => skipBlank false rest
  | c :: rest =>
    if c = '\n' then skipBlank false rest
    else if inComment then
      if isPlain c then skipBlank true rest else c :: rest
    else if isSpace c then skipBlank false rest
    else if c = '#' then skipBlank true rest
    else c :: rest

/-! ## Texts -/

/-- The character of a code that an escape gives. -/
def charOf? (digits : List Char) : Option Char := do
  let n ← Json.hexNumber? digits
  if n < 0xD800 ∨ (0xDFFF < n ∧ n < 0x110000) then some (Char.ofNat n) else none

/-- The character that a letter after a backslash stands for. -/
def shortEscape? (c : Char) : Option Char := if c = '/' then none else Json.shortEscape? c

/-- Reads the rest of a text in double quotes. What was read is kept in reverse. -/
def basicText (read : List Char) : Read (List Char)
  | [] => none
  | '"' :: rest => some (read.reverse, rest)
  | '\\' :: 'u' :: a :: b :: c :: d :: rest => do
    basicText ((← charOf? [a, b, c, d]) :: read) rest
  | '\\' :: 'U' :: a :: b :: c :: d :: e :: f :: g :: h :: rest => do
    basicText ((← charOf? [a, b, c, d, e, f, g, h]) :: read) rest
  | '\\' :: e :: rest => do basicText ((← shortEscape? e) :: read) rest
  | c :: rest => if c ≠ '\\' ∧ isPlain c then basicText (c :: read) rest else none

/-- Reads the rest of a text in single quotes. -/
def literalText (read : List Char) : Read (List Char)
  | [] => none
  | '\'' :: rest => some (read.reverse, rest)
  | c :: rest => if isPlain c then literalText (c :: read) rest else none

/-- Whether a text goes on, after space, with a line end. -/
def endsLine (cs : List Char) : Bool := (afterNewline? (skipSpace cs)).isSome

/-- Reads the rest of a text in three double quotes. Up to two quotes may stand before the three
that end it. A backslash at the end of a line drops the space that follows, line ends included;
`dropping` tells whether that goes on. -/
def basicBlock (dropping : Bool) (read : List Char) : Read (List Char)
  | [] => none
  | '"' :: '"' :: '"' :: '"' :: '"' :: rest => some (('"' :: '"' :: read).reverse, rest)
  | '"' :: '"' :: '"' :: '"' :: rest => some (('"' :: read).reverse, rest)
  | '"' :: '"' :: '"' :: rest => some (read.reverse, rest)
  | '\r' :: '\n' :: rest =>
    if dropping then basicBlock true read rest else basicBlock false ('\n' :: read) rest
  | '\\' :: 'u' :: a :: b :: c :: d :: rest => do
    basicBlock false ((← charOf? [a, b, c, d]) :: read) rest
  | '\\' :: 'U' :: a :: b :: c :: d :: e :: f :: g :: h :: rest => do
    basicBlock false ((← charOf? [a, b, c, d, e, f, g, h]) :: read) rest
  | '\\' :: e :: rest =>
    if endsLine (e :: rest) then
      if e = '\r' then basicBlock true read rest else basicBlock true read (e :: rest)
    else do basicBlock false ((← shortEscape? e) :: read) rest
  | c :: rest =>
    if dropping ∧ (isSpace c ∨ c = '\n') then basicBlock true read rest
    else if c = '\n' ∨ (c ≠ '\\' ∧ isPlain c) then basicBlock false (c :: read) rest
    else none

/-- Reads the rest of a text in three single quotes. -/
def literalBlock (read : List Char) : Read (List Char)
  | [] => none
  | '\'' :: '\'' :: '\'' :: '\'' :: '\'' :: rest => some (('\'' :: '\'' :: read).reverse, rest)
  | '\'' :: '\'' :: '\'' :: '\'' :: rest => some (('\'' :: read).reverse, rest)
  | '\'' :: '\'' :: '\'' :: rest => some (read.reverse, rest)
  | '\r' :: '\n' :: rest => literalBlock ('\n' :: read) rest
  | c :: rest => if c = '\n' ∨ isPlain c then literalBlock (c :: read) rest else none

/-- Drops a line end at the beginning of a block. -/
def skipFirstNewline (cs : List Char) : List Char := (afterNewline? cs).getD cs

/-- Reads a text in any quotes. -/
def text : Read String := fun cs =>
  let read := match cs with
    | '"' :: '"' :: '"' :: rest => basicBlock false [] (skipFirstNewline rest)
    | '\'' :: '\'' :: '\'' :: rest => literalBlock [] (skipFirstNewline rest)
    | '"' :: rest => basicText [] rest
    | '\'' :: rest => literalText [] rest
    | _ => none
  read.map fun (s, rest) => (String.ofList s, rest)

/-! ## Keys -/

/-- Whether a character can stand in a key without quotes. -/
def isKeyChar (c : Char) : Bool := c.isAlphanum ∨ c = '-' ∨ c = '_'

/-- Reads one part of a key. -/
def keyPart : Read String := fun cs =>
  match cs with
  | '"' :: rest => (basicText [] rest).map fun (s, rest) => (String.ofList s, rest)
  | '\'' :: rest => (literalText [] rest).map fun (s, rest) => (String.ofList s, rest)
  | cs =>
    let name := cs.takeWhile isKeyChar
    if name.isEmpty then none else some (String.ofList name, cs.dropWhile isKeyChar)

/-- Reads at most a number of parts of a key with points between them. -/
def keyParts : Nat → Read (List String)
  | 0, _ => none
  | fuel + 1, cs => do
    let (part, rest) ← keyPart (skipSpace cs)
    match skipSpace rest with
    | '.' :: rest =>
      let (parts, rest) ← keyParts fuel rest
      return (part :: parts, rest)
    | rest => return ([part], rest)

/-- The number of parts, and the depth of nesting, from which on data is refused. -/
def limit : Nat := 80

/-- Reads a key with fewer parts than the limit. -/
def key : Read (List String) := keyParts (limit - 1)

end SeededRows.Toml
