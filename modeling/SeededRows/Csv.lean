/-
  SeededRows.Csv

  Tables as text: fields separated by commas, records ended by line feeds. A field that holds
  a separator, a quote or a line end is quoted, its quotes doubled; a record that would be an
  empty line is written as a pair of quotes.
-/
namespace SeededRows.Csv

/-- The quote of quoted fields. -/
def quote : Char := '"'

/-- Whether a character forces quotes around its field. -/
def isSpecial (c : Char) : Bool := c = ',' ∨ c = quote ∨ c = '\r' ∨ c = '\n'

/-- Doubles every quote. -/
def doubled : List Char → List Char
  | [] => []
  | c :: rest => if c = quote then quote :: quote :: doubled rest else c :: doubled rest

/-- A field as written. -/
def encodeField (field : List Char) : List Char :=
  if field.any isSpecial then quote :: (doubled field ++ [quote]) else field

/-- Fields as written, with commas between them. -/
def encodeFields : List (List Char) → List Char
  | [] => []
  | [field] => encodeField field
  | field :: rest => encodeField field ++ ',' :: encodeFields rest

/-- A record as written, with its line feed. -/
def encodeRecord (record : List String) : List Char :=
  let line := encodeFields (record.map (·.toList))
  (if line.isEmpty then [quote, quote] else line) ++ ['\n']

/-- The text of a record. -/
def recordText (record : List String) : String := String.ofList (encodeRecord record)

/-- The text of records, one line each unless a field holds line feeds. -/
def render (records : List (List String)) : String := String.join (records.map recordText)

/-- Where a reader of a table stands: at the start of a field, inside a field without quotes,
inside quotes, or after a quote inside quotes, which ends the field unless another quote
follows. -/
inductive Place
  | fieldStart
  | bare
  | quoted
  | closed
deriving DecidableEq, Repr

/-- Reads the rest of a table. The field read so far, the fields of the record so far and the
records so far are kept in reverse. `none` when a quote stands where it must not, or the
text ends inside a record. -/
def decodeFrom (place : Place) (field : List Char) (record : List String)
    (records : List (List String)) : List Char → Option (List (List String))
  | [] =>
    if place = .fieldStart ∧ record.isEmpty ∧ field.isEmpty then some records.reverse else none
  | c :: rest =>
    let field' := String.ofList field.reverse
    match place with
    | .fieldStart =>
      if c = quote then decodeFrom .quoted [] record records rest
      else if c = ',' then decodeFrom .fieldStart [] ("" :: record) records rest
      else if c = '\n' then decodeFrom .fieldStart [] [] ((("" :: record).reverse) :: records) rest
      else if c = '\r' then none
      else decodeFrom .bare [c] record records rest
    | .bare =>
      if c = ',' then decodeFrom .fieldStart [] (field' :: record) records rest
      else if c = '\n' then decodeFrom .fieldStart [] [] ((field' :: record).reverse :: records) rest
      else if c = quote ∨ c = '\r' then none
      else decodeFrom .bare (c :: field) record records rest
    | .quoted =>
      if c = quote then decodeFrom .closed field record records rest
      else decodeFrom .quoted (c :: field) record records rest
    | .closed =>
      if c = quote then decodeFrom .quoted (quote :: field) record records rest
      else if c = ',' then decodeFrom .fieldStart [] (field' :: record) records rest
      else if c = '\n' then decodeFrom .fieldStart [] [] ((field' :: record).reverse :: records) rest
      else none

/-- The records of a table. -/
def decode (text : String) : Option (List (List String)) :=
  decodeFrom .fieldStart [] [] [] text.toList

end SeededRows.Csv
