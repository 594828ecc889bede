/-
  SeededRows.Aggregator.Matches

  The ids of the rows in which a field has a given value, as a set. A value matches when it is
  the target or has the target's cell text.
-/
import SeededRows.Aggregator.Count

namespace SeededRows

/-- Adds ids to a set. -/
def IdSet.addAll (ids : IdSet) (more : List UInt64) : IdSet := more.foldl (·.insert ·) ids

namespace Aggregator

/-- The name of match collectors in messages. -/
def matchesName : String := "match_collector"

/-- Whether a value matches a target. -/
def isMatch (target v : Value) : Bool := v.same target || v.cell == target.cell

/-- Collects the ids of the rows whose field matches a target. -/
def matching (σ : Type) (field : String) (target : Value) : Aggregator σ where
  name := matchesName
  fieldsNeeded := [field]
  output := .ids
  start := pure ()
  map row := do
    let v ← fieldOf matchesName field row
    let ids : IdSet := if isMatch target v then Std.ExtTreeSet.empty.insert row.id else .empty
    return ids
  reduce := fun (larger smaller : IdSet) => pure (larger.addAll smaller.toList)
  done := pure ()
  copy := id

end Aggregator

end SeededRows
