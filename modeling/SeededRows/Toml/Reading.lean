/-
  SeededRows.Toml.Reading

  Reads a TOML document. The fuel of the readers is the length of the text, of which each of
  their steps takes something.
-/
import SeededRows.Toml.Scalar
import SeededRows.Toml.Table

namespace SeededRows.Toml

mutual

/-- Reads a value inside of a number of lists and tables. -/
def value (fuel depth : Nat) : Read Json := fun cs =>
  match fuel with
  | 0 => none
  | fuel + 1 =>
    match cs with
    | '[' :: rest => if depth + 1 < limit then items fuel (depth + 1) [] rest else none
    | '\x7b' :: rest =>
      if depth + 1 < limit then
        match skipSpace rest with
        | '\x7d' :: rest => some (.record [], rest)
        | rest => entries fuel (depth + 1) .empty rest
      else none
    | '"' :: _ => (text cs).map fun (s, rest) => (.text s, rest)
    | '\'' :: _ => (text cs).map fun (s, rest) => (.text s, rest)
    | cs => scalar cs

/-- Reads the rest of a list, in which an item or the end comes next. -/
def items (fuel depth : Nat) (read : List Json) : Read Json := fun cs =>
  match fuel with
  | 0 => none
  | fuel + 1 =>
    match skipBlank false cs with
    | ']' :: rest => some (.list read.reverse, rest)
    | cs => do
      let (v, rest) ← value fuel depth cs
      match skipBlank false rest with
      | ',' :: rest => items fuel depth (v :: read) rest
      | ']' :: rest => return (.list (v :: read).reverse, rest)
      | _ => none

/-- Reads the rest of a table in braces, in which an entry comes next. -/
def entries (fuel depth : Nat) (t : Table) : Read Json := fun cs =>
  match fuel with
  | 0 => none
  | fuel + 1 => do
    let (path, rest) ← key cs
    let (_, rest) ← exactly '=' rest
    let (v, rest) ← value fuel depth (skipSpace rest)
    let t ← t.define? path.dropLast (← path.getLast?) v
    match skipSpace rest with
    | ',' :: rest => entries fuel depth t rest
    | '\x7d' :: rest => return (t.json, rest)
    | _ => none

end

/-- Reads a header of an item of an array. -/
def itemHeader : Read (List String) := fun cs => do
  let (path, rest) ← key cs
  match rest with
  | ']' :: ']' :: rest => return (path, ← afterLine? rest)
  | _ => none

/-- Reads a header of a table. -/
def tableHeader : Read (List String) := fun cs => do
  let (path, rest) ← key cs
  match rest with
  | ']' :: rest => return (path, ← afterLine? rest)
  | _ => none

/-- Reads an entry, which takes the rest of its line. -/
def entry (fuel : Nat) : Read (List String × Json) := fun cs => do
  let (path, rest) ← key cs
  let (_, rest) ← exactly '=' rest
  let (v, rest) ← value fuel 0 (skipSpace rest)
  return ((path, v), ← afterLine? rest)

/-- Reads lines to the end of the document. -/
def lines (fuel : Nat) (o : Outline) (cs : List Char) : Option Outline :=
  match fuel with
  | 0 => none
  | fuel + 1 =>
    match skipSpace cs with
    | [] => some o
    | '#' :: _ => do lines fuel o (← afterLine? cs)
    | '\n' :: rest => lines fuel o rest
    | '\r' :: '\n' :: rest => lines fuel o rest
    | '[' :: '[' :: rest => do
      let (path, rest) ← itemHeader rest
      lines fuel (← o.startItem? path) rest
    | '[' :: rest => do
      let (path, rest) ← tableHeader rest
      lines fuel (← o.startTable? path) rest
    | cs => do
      let ((path, v), rest) ← entry (2 * cs.length + 2) cs
      lines fuel (← o.define? path.dropLast (← path.getLast?) v) rest

/-- Drops a byte order mark at the beginning. -/
def skipMark : List Char → List Char
  | '\uFEFF' :: rest => rest
  | cs => cs

/-- The document that a text holds; `none` when it is not TOML. -/
def ofText (s : String) : Option Json := do
  let cs := skipMark s.toList
  let o ← lines (cs.length + 1) .empty cs
  return (← o.close?).json

end SeededRows.Toml
