/-
  SeededRows.Proofs.FieldOrder

  Field orders that are made by pushing fields. A push that is accepted adds one new name at the
  end, so every name stands once, and the fields that were there stay in place with their
  distributions.
-/
import Mathlib.Data.List.Nodup
import SeededRows.FieldOrder

namespace SeededRows.FieldOrder

/-- An order with some more fields pushed at its end. -/
inductive Grows (order : FieldOrder) : FieldOrder → Prop
  | refl : order.Grows order
  | push {order' order'' : FieldOrder} {name : String} {d : Distribution} :
      order.Grows order' → order'.push name d = .ok order'' → order.Grows order''

/-- An order that was made by pushing fields. -/
def Built (order : FieldOrder) : Prop := empty.Grows order

variable {order order' : FieldOrder}

theorem Built.grows (h : order.Built) (hgrows : order.Grows order') : order'.Built := by
  induction hgrows with
  | refl => exact h
  | push _ hpush ih => exact .push ih hpush

/-! ## Names and distributions -/

theorem mem_names_of_lookup {α : Type} {fields : List (String × α)} {name : String} :
    (fields.lookup name).isSome = true ↔ name ∈ fields.map Prod.fst := by
  induction fields with
  | nil => simp
  | cons field fields ih =>
    obtain ⟨key, d⟩ := field
    by_cases hkey : name = key
    · simp [hkey]
    · have hbeq : (name == key) = false := by simp [hkey]
      simp [List.lookup_cons, hbeq, hkey, ih]

/-- A name can be drawn when it stands in the order. -/
theorem contains_iff {name : String} : order.contains name = true ↔ name ∈ order.names :=
  mem_names_of_lookup

/-- An accepted field has a new name and goes to the end. -/
theorem push_eq_ok {name : String} {d : Distribution} (h : order.push name d = .ok order') :
    name ∉ order.names ∧ order'.fields = order.fields ++ [(name, d)] := by
  rw [push] at h
  by_cases hid : name = idField
  · rw [if_pos hid] at h
    cases h
  · rw [if_neg hid] at h
    by_cases hcontains : order.contains name = true
    · rw [if_pos hcontains] at h
      cases h
    · rw [if_neg hcontains] at h
      cases h
      exact ⟨fun hmem => hcontains (contains_iff.mpr hmem), rfl⟩

theorem push_names {name : String} {d : Distribution} (h : order.push name d = .ok order') :
    order'.names = order.names ++ [name] := by
  rw [names, (push_eq_ok h).2, List.map_append]
  rfl

theorem push_get? {name : String} {d : Distribution} (h : order.push name d = .ok order')
    (other : String) : order'.get? other = if other = name then some d else order.get? other := by
  obtain ⟨hnew, hfields⟩ := push_eq_ok h
  rw [get?, hfields, List.lookup_append]
  by_cases hother : other = name
  · subst hother
    have hnone : order.fields.lookup other = none := by
      rw [← Option.not_isSome_iff_eq_none, mem_names_of_lookup]
      exact hnew
    simp [hnone]
  · have hbeq : (other == name) = false := by simp [hother]
    simp [get?, hother, hbeq, List.lookup_cons]

/-- Pushing leaves the fields before where they are. -/
theorem Grows.fields (h : order.Grows order') : ∃ more, order'.fields = order.fields ++ more := by
  induction h with
  | refl => exact ⟨[], by simp⟩
  | push _ hpush ih =>
    obtain ⟨more, hmore⟩ := ih
    obtain ⟨-, hfields⟩ := push_eq_ok hpush
    rw [hfields, hmore, List.append_assoc]
    exact ⟨_, rfl⟩

theorem Grows.names (h : order.Grows order') : order.names <+: order'.names := by
  obtain ⟨more, hmore⟩ := h.fields
  refine ⟨more.map Prod.fst, ?_⟩
  simp only [FieldOrder.names, hmore, List.map_append]

/-- Pushing leaves the distributions of the names before. -/
theorem Grows.get? (h : order.Grows order') {name : String} (hname : name ∈ order.names) :
    order'.get? name = order.get? name := by
  obtain ⟨more, hmore⟩ := h.fields
  have hsome : (order.fields.lookup name).isSome = true := mem_names_of_lookup.mpr hname
  obtain ⟨d, hd⟩ := Option.isSome_iff_exists.mp hsome
  simp only [FieldOrder.get?, hmore, List.lookup_append, hd, Option.some_or]

/-- Every name of a built order stands once. -/
theorem Built.names_nodup (h : order.Built) : order.names.Nodup := by
  induction h with
  | refl => exact List.nodup_nil
  | push _ hpush ih =>
    obtain ⟨hnew, -⟩ := push_eq_ok hpush
    rw [push_names hpush]
    exact ih.append (List.nodup_singleton _) (by simpa using hnew)

/-- The name of the row id stands in no built order. -/
theorem Built.idField_notMem (h : order.Built) : idField ∉ order.names := by
  induction h with
  | refl => exact List.not_mem_nil
  | @push order' order'' name d _ hpush ih =>
    have hname : name ≠ idField := by
      rintro rfl
      rw [FieldOrder.push, if_pos rfl] at hpush
      cases hpush
    rw [push_names hpush, List.mem_append, List.mem_singleton]
    rintro (hold | hlast)
    · exact ih hold
    · exact hname hlast.symm

end SeededRows.FieldOrder
