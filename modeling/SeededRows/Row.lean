/-
  SeededRows.Row

  A row: its id and its fields in the order in which they were drawn. The name `id` always
  reads as the row id. Sorted by name the fields make the row's record.
-/
import SeededRows.Value

namespace SeededRows

/-- The reserved field that carries the row id. It is never drawn. -/
def idField : String := "id"

/-- One generated record. Every name occurs once among the fields. -/
structure Row where
  id : UInt64
  fields : List (String × Value)

namespace Row

/-- A row without fields. -/
def empty (id : UInt64) : Row := ⟨id, []⟩

/-- The value of a drawn field. -/
def get? (row : Row) (name : String) : Option Value := row.fields.lookup name

/-- The value of a field, where the reserved name stands for the row id. -/
def value? (row : Row) (name : String) : Option Value :=
  if name = idField then some (.uint row.id) else row.get? name

/-- Replaces the value of a name in place, or appends the pair at the end. -/
def put (name : String) (v : Value) : List (String × Value) → List (String × Value)
  | [] => [(name, v)]
  | (key, old) :: rest => if key = name then (key, v) :: rest else (key, old) :: put name v rest

/-- Sets a field. -/
def insert (row : Row) (name : String) (v : Value) : Row := { row with fields := put name v row.fields }

/-- The number of fields. -/
def size (row : Row) : Nat := row.fields.length

/-- The fields sorted by name. -/
def sorted (row : Row) : List (String × Value) :=
  row.fields.mergeSort fun a b => a.1 ≤ b.1

end Row

end SeededRows
