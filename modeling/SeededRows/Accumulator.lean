/-
  SeededRows.Accumulator

  What aggregators accumulate. Each kind of accumulator has a carrier type; an accumulator
  whose kind is not known beforehand is a kind with a value of its carrier. Maps and sets are
  extensional: two of them with the same entries are equal.
-/
import Std.Data.ExtTreeMap
import Std.Data.ExtTreeSet
import SeededRows.Value

namespace SeededRows

/-- How often each text was seen. -/
abbrev Histogram := Std.ExtTreeMap String Nat

/-- The collected values of rows, by row id. -/
abbrev RowTable := Std.ExtTreeMap UInt64 (List Value)

/-- A set of row ids. -/
abbrev IdSet := Std.ExtTreeSet UInt64

namespace Accumulator

/-- The kinds of accumulators. -/
inductive Kind
  /-- A count of rows. -/
  | count
  /-- A signed total that wraps around at 64 bits. -/
  | total
  | histogram
  | rows
  | ids
  | text
deriving DecidableEq, Repr

/-- The type of the accumulators of a kind. -/
def Kind.Carrier : Kind → Type
  | count => Nat
  | total => Int64
  | histogram => Histogram
  | rows => RowTable
  | ids => IdSet
  | text => String

/-- The name of a kind in messages. -/
def Kind.label : Kind → String
  | count => "u64"
  | total => "i64"
  | histogram => "alloc::collections::btree::map::BTreeMap<alloc::string::String, u64>"
  | rows => "alloc::collections::btree::map::BTreeMap<u64, " ++
      "alloc::vec::Vec<rowforge_core::value::GeneratedValue>>"
  | ids => "alloc::collections::btree::set::BTreeSet<u64>"
  | text => "alloc::string::String"

end Accumulator

/-- An accumulator of some kind. -/
structure Accumulator where
  kind : Accumulator.Kind
  value : kind.Carrier

namespace Accumulator

/-- The value of an accumulator that is expected to be of a kind. -/
def as? (k : Kind) (a : Accumulator) : Option k.Carrier :=
  if h : a.kind = k then some (h ▸ a.value) else none

theorem as?_mk (k : Kind) (v : k.Carrier) : as? k ⟨k, v⟩ = some v := by simp [as?]

theorem as?_eq_none_iff {k : Kind} {a : Accumulator} : as? k a = none ↔ a.kind ≠ k := by
  simp [as?]

theorem eq_mk_of_as? {k : Kind} {a : Accumulator} {v : k.Carrier} (h : as? k a = some v) :
    a = ⟨k, v⟩ := by
  by_cases hk : a.kind = k
  · subst hk
    cases (as?_mk a.kind a.value).symm.trans h
    rfl
  · cases (as?_eq_none_iff.mpr hk).symm.trans h

/-- All values, if every accumulator is of one kind. -/
def allOf? (k : Kind) (as : List Accumulator) : Option (List k.Carrier) := as.mapM (as? k)

theorem allOf?_mk (k : Kind) (values : List k.Carrier) :
    allOf? k (values.map (Accumulator.mk k)) = some values := by
  induction values with
  | nil => rfl
  | cons v values ih =>
    rw [allOf?] at ih ⊢
    rw [List.map_cons, List.mapM_cons, as?_mk, ih]
    rfl

/-- Accumulators of one kind are their values with the kind. -/
theorem allOf?_eq_some_iff {k : Kind} {as : List Accumulator} {values : List k.Carrier} :
    allOf? k as = some values ↔ as = values.map (Accumulator.mk k) := by
  constructor
  · intro h
    induction as generalizing values with
    | nil =>
      cases h
      rfl
    | cons a as ih =>
      rw [allOf?, List.mapM_cons] at h
      obtain ⟨v, hv, h⟩ := Option.bind_eq_some_iff.mp h
      obtain ⟨rest, hrest, h⟩ := Option.bind_eq_some_iff.mp h
      cases h
      rw [List.map_cons, eq_mk_of_as? hv, ih hrest]
  · rintro rfl
    exact allOf?_mk k values

end Accumulator

end SeededRows
