/-
  SeededRows.FieldOrder

  The fields that can be drawn, in the order in which they are drawn. Every name occurs once
  and the reserved name never; a refused field leaves the order as it was.
-/
import SeededRows.Distribution.Spec

namespace SeededRows

/-- Named distributions in the order of drawing. -/
structure FieldOrder where
  fields : List (String × Distribution)

namespace FieldOrder

/-- No fields. -/
def empty : FieldOrder := ⟨[]⟩

/-- The names in order. -/
def names (order : FieldOrder) : List String := order.fields.map (·.1)

/-- The distribution of a name. -/
def get? (order : FieldOrder) (name : String) : Option Distribution := order.fields.lookup name

/-- Whether a name can be drawn. -/
def contains (order : FieldOrder) (name : String) : Bool := (order.get? name).isSome

/-- The number of fields. -/
def size (order : FieldOrder) : Nat := order.fields.length

/-- Appends a field at the end. -/
def push (order : FieldOrder) (name : String) (d : Distribution) : Except Fault FieldOrder :=
  if name = idField then refuse .reservedField
  else if order.contains name then refuse (.duplicateField name)
  else .ok ⟨order.fields ++ [(name, d)]⟩

/-- Checks that the source of a bucket is the row id or a field of the order. -/
def checkSource (order : FieldOrder) (field : FieldSpec) : Except Fault Unit :=
  match field.distribution with
  | .bucket source _ _ =>
    if order.contains source ∨ source = idField then .ok ()
    else refuse (.bucketSource field.name source)
  | _ => .ok ()

/-- Appends a described field. -/
def pushSpec (order : FieldOrder) (field : FieldSpec) : Except Stop FieldOrder := do
  Stop.ofFault (order.checkSource field)
  let d ← field.distribution.build
  Stop.ofFault (order.push field.name d)

/-- The order of a list of described fields. -/
def ofSpecs (fields : List FieldSpec) : Except Stop FieldOrder := fields.foldlM pushSpec empty

/-- The diagnostic text: the names in order. -/
def diagnostic (order : FieldOrder) : String :=
  Text.record "DistributionHolder" [("order", Text.bracketed (order.names.map Text.quoted))] true

end FieldOrder

end SeededRows
