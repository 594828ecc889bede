/-
  SeededRows.Json.Text

  The written form of documents, on one line or indented.
-/
import SeededRows.Json.Basic
import SeededRows.Text.Quoted

namespace SeededRows.Json

/-- The escaped form of one character of a text. -/
def escaped (c : Char) : List Char :=
  if c = '"' then ['\\', '"']
  else if c = '\\' then ['\\', '\\']
  else if c = '\x08' then ['\\', 'b']
  else if c = '\t' then ['\\', 't']
  else if c = '\n' then ['\\', 'n']
  else if c = '\x0c' then ['\\', 'f']
  else if c = '\r' then ['\\', 'r']
  else if c.toNat < 0x20 then
    let digits := Nat.toDigits 16 c.toNat
    '\\' :: 'u' :: (List.replicate (4 - digits.length) '0' ++ digits)
  else [c]

/-- A text in quotes. -/
def quoted (s : String) : String := String.ofList ('"' :: (s.toList.flatMap escaped ++ ['"']))

/-- A document that has no parts. -/
def scalar : Json → String
  | bool b => if b then "true" else "false"
  | int n => toString n
  | float x => (Decimal.json? x).getD "null"
  | text s => quoted s
  | _ => "null"

mutual

/-- The document on one line, without spaces. -/
def compact : Json → String
  | list items => "[" ++ String.intercalate "," (compactItems items) ++ "]"
  | record entries => "\x7b" ++ String.intercalate "," (compactEntries entries) ++ "\x7d"
  | v => scalar v

/-- The items of a list, each on one line. -/
def compactItems : List Json → List String
  | [] => []
  | item :: rest => compact item :: compactItems rest

/-- The entries of a record, each on one line. -/
def compactEntries : List (String × Json) → List String
  | [] => []
  | (key, v) :: rest => (quoted key ++ ":" ++ compact v) :: compactEntries rest

end

/-- The start of a line at a depth. -/
def newLine (depth : Nat) : String := String.ofList ('\n' :: List.replicate (2 * depth) ' ')

/-- Parts between brackets, each on a line of its own. -/
def block (depth : Nat) (opening closing : String) (parts : List String) : String :=
  if parts.isEmpty then opening ++ closing
  else
    opening ++ newLine (depth + 1) ++ String.intercalate ("," ++ newLine (depth + 1)) parts ++
      newLine depth ++ closing

mutual

/-- The document with every part on a line of its own, indented by two spaces per depth. -/
def indented (depth : Nat) : Json → String
  | list items => block depth "[" "]" (indentedItems (depth + 1) items)
  | record entries => block depth "\x7b" "\x7d" (indentedEntries (depth + 1) entries)
  | v => scalar v

/-- The items of a list, indented. -/
def indentedItems (depth : Nat) : List Json → List String
  | [] => []
  | item :: rest => indented depth item :: indentedItems depth rest

/-- The entries of a record, indented. -/
def indentedEntries (depth : Nat) : List (String × Json) → List String
  | [] => []
  | (key, v) :: rest => (quoted key ++ ": " ++ indented depth v) :: indentedEntries depth rest

end

end SeededRows.Json
