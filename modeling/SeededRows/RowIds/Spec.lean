/-
  SeededRows.RowIds.Spec

  The identity of a row: its id, made of a stripe in the high half and an offset in the low
  half, and the seed that the row is drawn from. Specs are ordered by id, then by seed, where
  a missing seed comes first.
-/
import SeededRows.Text.Quoted

namespace SeededRows

/-- The id and the seed of a row. A row without a seed is drawn from entropy. -/
structure RowSpec where
  id : UInt64
  seed : Option Int64
deriving DecidableEq, Repr

namespace RowSpec

/-- The id of an offset in a stripe. -/
def idOf (stripe offset : Nat) : UInt64 := (stripe.toUInt64 <<< 32) ||| offset.toUInt64

/-- The stripe of the row. -/
def stripe (spec : RowSpec) : UInt64 := spec.id >>> 32

/-- The offset of the row in its stripe. -/
def offset (spec : RowSpec) : UInt64 := spec.id &&& 0xffffffff

/-- The text of a spec: the id in hexadecimal, and the seed or a hyphen. -/
def text (spec : RowSpec) : String :=
  let seed := match spec.seed with
    | some s => toString s.toInt
    | none => "-"
  "0x" ++ Text.hex spec.id.toNat ++ "/" ++ seed

/-- The diagnostic text of a spec. -/
def diagnostic (spec : RowSpec) : String :=
  let seed := match spec.seed with
    | some s => "Some(" ++ toString s.toInt ++ ")"
    | none => "None"
  Text.record "RowSpec" [("row_id", toString spec.id.toNat), ("seed", seed)] false

/-- The order of seeds, a missing one first. -/
def seedLe : Option Int64 → Option Int64 → Bool
  | none, _ => true
  | some _, none => false
  | some a, some b => a.toInt ≤ b.toInt

/-- The order of specs. -/
def le (a b : RowSpec) : Bool := a.id < b.id || (a.id == b.id && seedLe a.seed b.seed)

end RowSpec

end SeededRows
