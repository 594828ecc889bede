/-
  SeededRows.Proofs.Aggregator.Summaries

  Summaries of accumulators. The kind of the accumulators of a described aggregator is a matter of
  the description, and so is the document that shows one of them, so a summary succeeds exactly where
  the result at a place is of that kind. A document leaves nothing out: the record of a map has one
  entry for each key, since the texts under which the keys are entered differ, and a set is listed
  in order.
-/
import Mathlib.Data.List.Nodup
import Std.Data.String.ToNat
import SeededRows.Aggregator.Results
import SeededRows.Proofs.Aggregator.Stock
import SeededRows.Proofs.Json.Values

namespace SeededRows

open Std (ExtTreeMap ExtTreeSet)

/-! ## Documents of maps and sets -/

/-- The record of a map: an entry for every key, each under a text of its own, with a document that
shows the value of the key. -/
def Json.Tabulates {α β : Type} {cmp : α → α → Ordering} [Std.TransCmp cmp] (doc : Json)
    (m : ExtTreeMap α β cmp) (key : α → String) (shows : β → Json → Prop) : Prop :=
  ∃ entries, doc = .record entries ∧ (entries.map Prod.fst).Nodup ∧ entries.length = m.size ∧
    (∀ a b, m[a]? = some b → ∃ v, (key a, v) ∈ entries ∧ shows b v) ∧
    ∀ text v, (text, v) ∈ entries → ∃ a b, m[a]? = some b ∧ key a = text ∧ shows b v

/-- The list of a set of ids: every id once, in increasing order. -/
def Json.Lists (doc : Json) (ids : IdSet) : Prop :=
  ∃ listed : List UInt64, doc = .list (listed.map fun id => .int id.toNat) ∧
    listed.Pairwise (· < ·) ∧ ∀ id, id ∈ listed ↔ id ∈ ids

/-- A count is shown as a number. -/
def Json.Counts (n : Nat) (doc : Json) : Prop := doc = .int n

/-- A record that writes every value as a document that shows it. -/
theorem Json.tabulates_record {α β : Type} {cmp : α → α → Ordering} [Std.TransCmp cmp]
    [Std.LawfulEqCmp cmp] (m : ExtTreeMap α β cmp) {key : α → String}
    (hkey : Function.Injective key) {shows : β → Json → Prop} {write : β → Json}
    (hwrite : ∀ b, shows b (write b)) :
    (record (m.toList.map fun (a, b) => (key a, write b))).Tabulates m key shows := by
  refine ⟨_, rfl, ?_, ?_, ?_, ?_⟩
  -- no key takes the place of another, as their texts differ
  · have hkeys := List.Nodup.map hkey (Aggregator.keys_toList_nodup m)
    rw [List.map_map] at hkeys ⊢
    exact hkeys
  · rw [List.length_map, ExtTreeMap.length_toList]
  · intro a b hget
    have hmem : (a, b) ∈ m.toList := ExtTreeMap.mem_toList_iff_getElem?_eq_some.mpr hget
    exact ⟨write b, List.mem_map_of_mem hmem, hwrite b⟩
  · intro text v hentry
    obtain ⟨⟨a, b⟩, hmem, heq⟩ := List.mem_map.mp hentry
    cases heq
    exact ⟨a, b, ExtTreeMap.mem_toList_iff_getElem?_eq_some.mp hmem, rfl, hwrite b⟩

/-- Different ids have different decimal texts. -/
theorem decimal_injective : Function.Injective fun id : UInt64 => toString id.toNat := by
  intro a b h
  exact UInt64.toNat_inj.mp (Nat.repr_inj.mp h)

theorem Histogram.json_tabulates (h : Histogram) : h.json.Tabulates h id Json.Counts := by
  have hcounts : ∀ n : Nat, Json.Counts n (.int n) := fun _ => rfl
  exact Json.tabulates_record h Function.injective_id hcounts

theorem RowTable.json_tabulates (table : RowTable) :
    table.json.Tabulates table (fun id => toString id.toNat) Value.AllShownBy :=
  Json.tabulates_record table decimal_injective Value.allShown_json

theorem IdSet.json_lists (ids : IdSet) : ids.json.Lists ids := by
  refine ⟨ids.toList, rfl, ?_, fun id => ExtTreeSet.mem_toList⟩
  exact ids.ordered_toList.imp fun h => Std.compare_eq_lt.mp h

/-! ## Results at places -/

namespace Results

variable {results : Results} {k : Accumulator.Kind} {i : Nat}

theorem expect_past (h : results.length ≤ i) :
    results.expect k i = refuse (.noResult i results.length) := by
  rw [expect, List.getElem?_eq_none h]

theorem expect_other {name : String} {a : Accumulator} (hi : results[i]? = some (name, a))
    (hkind : a.kind ≠ k) : results.expect k i = refuse (.resultKind name k) := by
  rw [expect, hi]
  dsimp only
  rw [Accumulator.as?_eq_none_iff.mpr hkind]

theorem expect_of_get? {v : k.Carrier} (h : results.get? k i = some v) : results.expect k i = .ok v := by
  obtain ⟨⟨name, a⟩, hi, ha⟩ := Option.bind_eq_some_iff.mp h
  rw [expect, hi]
  dsimp only at ha ⊢
  rw [ha]

end Results

/-! ## Described aggregators -/

namespace AggregatorSpec

/-- The kind of the accumulators of a described aggregator. -/
def kind : AggregatorSpec → Accumulator.Kind
  | count | csv .. => .count
  | histogram _ => .histogram
  | collect _ => .rows
  | .matches .. => .ids

/-- The document of an accumulator of a described aggregator. -/
def document : (spec : AggregatorSpec) → spec.kind.Carrier → Json
  | count | csv .. => fun n : Nat => .int n
  | histogram _ => Histogram.json
  | collect _ => RowTable.json
  | .matches .. => IdSet.json

/-- What a document shows of an accumulator: all of it. -/
def Shows : (spec : AggregatorSpec) → spec.kind.Carrier → Json → Prop
  | count | csv .. => Json.Counts
  | histogram _ => fun (h : Histogram) doc => doc.Tabulates h id Json.Counts
  | collect _ => fun (table : RowTable) doc =>
    doc.Tabulates table (fun id => toString id.toNat) Value.AllShownBy
  | .matches .. => fun (ids : IdSet) doc => doc.Lists ids

/-- What an accumulator holds of rows: how many there are, how often each text occurs in a field, the
values of fields in their order under the id of each row, or the ids of those that match. -/
def Gathers (rows : List Row) : (spec : AggregatorSpec) → spec.kind.Carrier → Prop
  | count | csv .. => fun n : Nat => n = rows.length
  | histogram field => fun h : Histogram =>
    ∀ key, h[key]? = Aggregator.entry (Aggregator.occurrences field rows key)
  | collect fields => fun table : RowTable =>
    ∀ id vs, table[id]? = some vs ↔ ∃ row ∈ rows, row.id = id ∧ row.values? fields = some vs
  | .matches field value => fun ids : IdSet =>
    ∀ id, id ∈ ids ↔ ∃ row ∈ rows, row.id = id ∧ Aggregator.HasMatch field (.text value) row

/-- The name of an aggregator does not depend on the disk. -/
theorem name_build (disk disk' : Disk) (spec : AggregatorSpec) :
    (spec.build disk).name = (spec.build disk').name := by
  cases spec <;> rfl

/-- A description expects results of the kind that its aggregator accumulates. -/
theorem summarize_eq (spec : AggregatorSpec) (results : Results) (i : Nat) :
    spec.summarize results i = (results.expect spec.kind i).map spec.document := by
  cases spec <;> rfl

theorem shows_document (spec : AggregatorSpec) (v : spec.kind.Carrier) :
    spec.Shows v (spec.document v) := by
  cases spec with
  | count => rfl
  | csv dir fields stem => rfl
  | histogram field => exact Histogram.json_tabulates v
  | collect fields => exact RowTable.json_tabulates v
  | «matches» field value => exact IdSet.json_lists v

/-- The order of the rows does not matter. -/
theorem Gathers.perm {rows others : List Row} {spec : AggregatorSpec} {v : spec.kind.Carrier}
    (h : spec.Gathers rows v) (hperm : rows.Perm others) : spec.Gathers others v := by
  cases spec with
  | count => exact h.trans hperm.length_eq
  | csv dir fields stem => exact h.trans hperm.length_eq
  | histogram field =>
    intro key
    rw [Aggregator.occurrences, ← hperm.countP_eq]
    exact h key
  | collect fields =>
    intro id vs
    rw [h id vs]
    simp only [hperm.mem_iff]
  | «matches» field value =>
    intro id
    rw [h id]
    simp only [hperm.mem_iff]

end AggregatorSpec

end SeededRows
