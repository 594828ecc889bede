/-
  SeededRows.RunFile.Parts

  How documents are taken apart. A structure may be written as a record, whose known keys must
  not repeat, or as the list of its parts in order, in which parts at the end may be missing.
  A description with a kind has its kind as an entry or as the first item.
-/
import SeededRows.Json.Basic
import SeededRows.Word

namespace SeededRows.RunFile

/-- The notation that a document was written in. -/
inductive Notation
  | json
  | toml
deriving DecidableEq, Repr

/-! ## Simple parts -/

/-- A text. -/
def text? : Json → Option String
  | .text s => some s
  | _ => none

/-- A truth value. -/
def bool? : Json → Option Bool
  | .bool b => some b
  | _ => none

/-- A signed integer of 64 bits. -/
def int? : Json → Option Int64
  | .int n => Word.signed? n
  | _ => none

/-- An unsigned integer of 64 bits. -/
def uint? : Json → Option UInt64
  | .int n => Word.unsigned? n
  | _ => none

/-- A double, or an integer as one. -/
def float? : Json → Option Float
  | .float x => some x
  | .int n =>
    let size := n.natAbs.toUInt64.toFloat
    some (if n < 0 then -size else size)
  | _ => none

/-- A list of parts. -/
def list? {α : Type} (item? : Json → Option α) : Json → Option (List α)
  | .list items => items.mapM item?
  | _ => none

/-- A part or null. -/
def nullable? {α : Type} (part? : Json → Option α) : Json → Option (Option α)
  | .null => some none
  | v => (part? v).map some

/-! ## Structures -/

/-- The parts of a structure. -/
inductive Parts
  | named (entries : List (String × Json))
  | positional (items : List Json)

namespace Parts

/-- The parts that a document holds. -/
def of? : Json → Option Parts
  | .record entries => some (.named entries)
  | .list items => some (.positional items)
  | _ => none

/-- The values of a key. -/
def valuesOf (entries : List (String × Json)) (name : String) : List Json :=
  (entries.filter fun entry => entry.1 == name).map (·.2)

/-- The part at a place with a name: `none` when its key repeats, `some none` when it is missing. -/
def find? (place : Nat) (name : String) : Parts → Option (Option Json)
  | named entries =>
    match valuesOf entries name with
    | [] => some none
    | [v] => some (some v)
    | _ => none
  | positional items => some items[place]?

/-- A part that must be there. -/
def required? {α : Type} (parts : Parts) (place : Nat) (name : String) (part? : Json → Option α) :
    Option α := do part? (← (← parts.find? place name))

/-- A part that has a default. -/
def default? {α : Type} (parts : Parts) (place : Nat) (name : String) (default : α)
    (part? : Json → Option α) : Option α := do
  match ← parts.find? place name with
  | some v => part? v
  | none => return default

/-- Whether there are no more items than parts. -/
def fits (parts : Parts) (size : Nat) : Bool :=
  match parts with
  | named _ => true
  | positional items => items.length ≤ size

/-- Whether all keys are known. -/
def knows (parts : Parts) (names : List String) : Bool :=
  match parts with
  | named entries => entries.all fun entry => names.contains entry.1
  | positional _ => true

end Parts

/-! ## Descriptions with a kind -/

/-- The key of the kind of a description. -/
def kindKey : String := "kind"

/-- The kind of a description with its other parts. -/
def kindAndParts? : Json → Option (String × Parts)
  | .record entries =>
    match Parts.valuesOf entries kindKey with
    | [.text kind] => some (kind, .named (entries.filter fun entry => entry.1 != kindKey))
    | _ => none
  | .list (.text kind :: items) => some (kind, .positional items)
  | _ => none

end SeededRows.RunFile
