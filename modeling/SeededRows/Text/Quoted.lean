/-
  SeededRows.Text.Quoted

  Diagnostic text: quoted strings, and lists and sets of them. A quoted string escapes the
  quote, the backslash and every character that cannot be shown as it is.
-/
import SeededRows.Text.Printable

namespace SeededRows.Text

/-- The hexadecimal digits of a number, in lower case. -/
def hex (n : Nat) : String := String.ofList (Nat.toDigits 16 n)

/-- The escaped form of one character of a quoted string. -/
def escapeQuoted (c : Char) : String :=
  if c = '"' then "\\\""
  else if c = '\\' then "\\\\"
  else if c = '\n' then "\\n"
  else if c = '\r' then "\\r"
  else if c = '\t' then "\\t"
  else if c.toNat = 0 then "\\0"
  else if isPrintable c then c.toString
  else "\\u\x7b" ++ hex c.toNat ++ "\x7d"

/-- A string in quotes. -/
def quoted (s : String) : String := "\"" ++ String.join (s.toList.map escapeQuoted) ++ "\""

/-- Texts in square brackets. -/
def bracketed (items : List String) : String := "[" ++ String.intercalate ", " items ++ "]"

/-- Texts in curly braces. -/
def braced (items : List String) : String := "\x7b" ++ String.intercalate ", " items ++ "\x7d"

/-- A named record with its fields, as diagnostics show it; `partially` says that some are left out. -/
def record (name : String) (fields : List (String × String)) (partially : Bool) : String :=
  let shown := fields.map fun (key, value) => key ++ ": " ++ value
  name ++ " \x7b " ++ String.intercalate ", " (shown ++ if partially then [".."] else []) ++ " \x7d"

end SeededRows.Text
