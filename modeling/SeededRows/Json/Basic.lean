/-
  SeededRows.Json.Basic

  Documents of plain data: null, booleans, numbers, texts, lists and records. A record keeps
  its entries in the order in which they were written, repeated keys included.
-/
import SeededRows.Decimal.Reading

namespace SeededRows

/-- A document. -/
inductive Json
  | null
  | bool (b : Bool)
  | int (n : Int)
  | float (x : Float)
  | text (s : String)
  | list (items : List Json)
  | record (entries : List (String × Json))
  /-- Well-formed source text that stands for no value: a number beyond the range of doubles,
  half of a surrogate pair, or data nested too deeply. -/
  | unreadable

namespace Json

/-- A double as a document; the ones that cannot be written become null. -/
def ofFloat (x : Float) : Json := if x.isFinite then .float x else .null

/-- A list of texts. -/
def texts (items : List String) : Json := .list (items.map .text)

mutual

/-- Whether every part of a document stands for a value. -/
def readable : Json → Bool
  | list items => readableItems items
  | record entries => readableEntries entries
  | unreadable => false
  | _ => true

/-- Whether every part of a list stands for a value. -/
def readableItems : List Json → Bool
  | [] => true
  | item :: rest => readable item && readableItems rest

/-- Whether every part of a record stands for a value. -/
def readableEntries : List (String × Json) → Bool
  | [] => true
  | (_, v) :: rest => readable v && readableEntries rest

end

/-- Drops every entry whose key comes again later. -/
def lastEntries : List (String × Json) → List (String × Json)
  | [] => []
  | (key, v) :: rest =>
    if rest.any fun entry => entry.1 == key then lastEntries rest else (key, v) :: lastEntries rest

mutual

/-- The document in which the last entry of a repeated key stands for all of them. -/
def settled : Json → Json
  | list items => list (settledItems items)
  | record entries => record (lastEntries (settledEntries entries))
  | v => v

/-- A list with settled records. -/
def settledItems : List Json → List Json
  | [] => []
  | item :: rest => settled item :: settledItems rest

/-- Entries with settled values. -/
def settledEntries : List (String × Json) → List (String × Json)
  | [] => []
  | (key, v) :: rest => (key, settled v) :: settledEntries rest

end

mutual

/-- The document in which the entries of every record are in the order of their keys. -/
def sorted : Json → Json
  | list items => list (sortedItems items)
  | record entries => record ((sortedEntries entries).mergeSort fun a b => a.1 ≤ b.1)
  | v => v

/-- A list with sorted records. -/
def sortedItems : List Json → List Json
  | [] => []
  | item :: rest => sorted item :: sortedItems rest

/-- Entries with sorted values. -/
def sortedEntries : List (String × Json) → List (String × Json)
  | [] => []
  | (key, v) :: rest => (key, sorted v) :: sortedEntries rest

end

/-- The first value of a key of a record. -/
def get? (key : String) : Json → Option Json
  | record entries => entries.lookup key
  | _ => none

end Json

end SeededRows
