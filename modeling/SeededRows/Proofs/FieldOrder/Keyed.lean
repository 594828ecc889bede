/-
  SeededRows.Proofs.FieldOrder.Keyed

  The list of names and the distributions by name. A holder of fields is used through calls that add
  a field, of which some are refused, and through calls that look at it. A field order holds pairs;
  keyed fields hold the names in a list and the distributions in a table of their own, which every
  accepted call has to change together. After any calls both say the same, and what they say is told
  by the accepted calls alone.
-/
import Std.Data.HashMap
import SeededRows.Proofs.FieldOrder

namespace SeededRows

/-- The calls on holders of fields. -/
structure Holders (β : Type) where
  /-- A holder of no fields. -/
  empty : β
  /-- Adds a field to a holder, whether its distribution is shared with others or not, and gives what
  becomes of the holder also if the field is refused. -/
  push : β → String → Distribution → Except Fault Unit × β
  names : β → List String
  contains : β → String → Bool
  get? : β → String → Option Distribution
  size : β → Nat

namespace Holders

variable {β : Type} {H : Holders β} {b b' : β} {accepted : List (String × Distribution)}
  {name : String} {d : Distribution} {f : Fault}

/-- Adds a field and passes the holder on; a refused field leaves no holder. -/
def adding (H : Holders β) (b : β) (name : String) (d : Distribution) : Except Fault β :=
  match H.push b name d with
  | (.ok (), b') => .ok b'
  | (.error f, _) => .error f

theorem adding_eq_ok_iff : H.adding b name d = .ok b' ↔ H.push b name d = (.ok (), b') := by
  rw [adding]
  rcases H.push b name d with ⟨f | ⟨⟩, b₁⟩
  · exact iff_of_false nofun nofun
  · simp

/-- A holder after some calls, with the fields of the accepted ones in the order of the calls. -/
inductive Called (H : Holders β) : β → List (String × Distribution) → Prop
  | nothing : Called H H.empty []
  | pushed {b b' : β} {accepted : List (String × Distribution)} {name : String} {d : Distribution} :
      Called H b accepted → H.push b name d = (.ok (), b') → Called H b' (accepted ++ [(name, d)])
  | refused {b b' : β} {accepted : List (String × Distribution)} {name : String} {d : Distribution}
      {f : Fault} : Called H b accepted → H.push b name d = (.error f, b') → Called H b' accepted
  | added {b b' : β} {accepted : List (String × Distribution)} {name : String} {d : Distribution} :
      Called H b accepted → H.adding b name d = .ok b' → Called H b' (accepted ++ [(name, d)])

/-- What a holder says of its fields is what the accepted calls tell. -/
structure Agrees (H : Holders β) (b : β) (accepted : List (String × Distribution)) : Prop where
  /-- The names stand in the order of the calls. -/
  ordered : H.names b = accepted.map Prod.fst
  nodup : (H.names b).Nodup
  unreserved : idField ∉ H.names b
  listed : ∀ name, name ∈ H.names b ↔ H.contains b name = true
  /-- The distribution of a name is the one of the call for it. -/
  given : ∀ name d, H.get? b name = some d ↔ (name, d) ∈ accepted
  counted : H.size b = accepted.length

end Holders

/-! ## Orders of pairs -/

namespace FieldOrder

variable {order order' : FieldOrder} {accepted : List (String × Distribution)} {name : String}
  {d : Distribution} {f : Fault}

/-- Appends a field at the end of an order that stays as it is if the field is refused. -/
def pushing (order : FieldOrder) (name : String) (d : Distribution) : Except Fault Unit × FieldOrder :=
  match order.push name d with
  | .ok order' => (.ok (), order')
  | .error f => (.error f, order)

/-- Field orders as holders. -/
def holders : Holders FieldOrder := ⟨empty, pushing, names, contains, get?, size⟩

theorem pushing_eq_ok_iff : order.pushing name d = (.ok (), order') ↔ order.push name d = .ok order' := by
  rw [pushing]
  cases order.push name d with
  | ok order₁ => simp
  | error f => exact iff_of_false nofun nofun

/-- A refused field leaves the order as it was. -/
theorem pushing_eq_error (h : order.pushing name d = (.error f, order')) : order' = order := by
  rw [pushing] at h
  cases hpush : order.push name d with
  | ok order₁ =>
    rw [hpush] at h
    cases h
  | error f' =>
    rw [hpush] at h
    cases h
    rfl

/-- The orders are those that are built, and they hold the accepted fields. -/
theorem of_called (h : holders.Called order accepted) : order.Built ∧ order.fields = accepted := by
  have hstep : ∀ {order order' : FieldOrder} {accepted : List (String × Distribution)} {name : String}
      {d : Distribution}, order.Built ∧ order.fields = accepted →
      holders.push order name d = (.ok (), order') →
      order'.Built ∧ order'.fields = accepted ++ [(name, d)] := by
    rintro order order' _ name d ⟨hbuilt, rfl⟩ hpush
    have hpush' : order.push name d = .ok order' := pushing_eq_ok_iff.mp hpush
    exact ⟨.push hbuilt hpush', (push_eq_ok hpush').2⟩
  induction h with
  | nothing => exact ⟨.refl, rfl⟩
  | pushed _ hpush ih => exact hstep ih hpush
  | added _ hadd ih => exact hstep ih (Holders.adding_eq_ok_iff.mp hadd)
  | refused _ hpush ih =>
    obtain rfl := pushing_eq_error hpush
    exact ih

/-- Under names that stand once, the fields are looked up. -/
theorem lookup_eq_some_iff {α : Type} {fields : List (String × α)} (h : (fields.map Prod.fst).Nodup)
    {v : α} : fields.lookup name = some v ↔ (name, v) ∈ fields := by
  induction fields with
  | nil => simp
  | cons field fields ih =>
    obtain ⟨key, w⟩ := field
    obtain ⟨hkey, hrest⟩ := List.nodup_cons.mp h
    by_cases hname : name = key
    · subst hname
      have hnot : (name, v) ∉ fields := fun hmem => hkey (List.mem_map.mpr ⟨_, hmem, rfl⟩)
      simp [hnot, eq_comm]
    · have hbeq : (name == key) = false := by simp [hname]
      simp [List.lookup_cons, hbeq, hname, ih hrest]

theorem agrees_of_called (h : holders.Called order accepted) : holders.Agrees order accepted := by
  obtain ⟨hbuilt, rfl⟩ := of_called h
  exact {
    ordered := rfl
    nodup := hbuilt.names_nodup
    unreserved := hbuilt.idField_notMem
    listed := fun _ => contains_iff.symm
    given := fun _ _ => lookup_eq_some_iff hbuilt.names_nodup
    counted := rfl }

end FieldOrder

/-! ## Names apart from distributions -/

/-- Fields with their names in the order of drawing and their distributions in a table. -/
structure KeyedFields where
  order : List String
  dists : Std.HashMap String Distribution

namespace KeyedFields

/-- No fields. -/
def empty : KeyedFields := ⟨[], ∅⟩

/-- Whether a name can be drawn. -/
def contains (k : KeyedFields) (name : String) : Bool := k.dists.contains name

/-- The distribution of a name. -/
def get? (k : KeyedFields) (name : String) : Option Distribution := k.dists[name]?

/-- The number of fields. -/
def size (k : KeyedFields) : Nat := k.order.length

/-- Appends a field at the end: first its name, then its distribution. -/
def push (k : KeyedFields) (name : String) (d : Distribution) : Except Fault Unit × KeyedFields :=
  if name = idField then (refuse .reservedField, k)
  else if k.contains name then (refuse (.duplicateField name), k)
  else
    let named : KeyedFields := { k with order := k.order ++ [name] }
    (.ok (), { named with dists := named.dists.insert name d })

/-- Keyed fields as holders. -/
def holders : Holders KeyedFields := ⟨empty, push, order, contains, get?, size⟩

/-- The names and the distributions of keyed fields are those of a field order. -/
structure Represents (k : KeyedFields) (fields : FieldOrder) : Prop where
  order : k.order = fields.names
  get? : ∀ name, k.get? name = fields.get? name

variable {k k' : KeyedFields} {fields fields' : FieldOrder} {accepted : List (String × Distribution)}
  {name : String} {d : Distribution} {f : Fault}

theorem contains_eq (k : KeyedFields) (name : String) : k.contains name = (k.get? name).isSome :=
  Std.HashMap.contains_eq_isSome_getElem?

theorem Represents.contains (h : k.Represents fields) (name : String) :
    k.contains name = fields.contains name := by
  rw [contains_eq, h.get?, FieldOrder.contains]

/-- Adding a field is one step on both: they answer the same, and the table keeps to the names. -/
theorem Represents.push (h : k.Represents fields) (name : String) (d : Distribution) :
    (k.push name d).1 = (fields.pushing name d).1 ∧
      (k.push name d).2.Represents (fields.pushing name d).2 := by
  rw [KeyedFields.push, FieldOrder.pushing, h.contains]
  by_cases hid : name = idField
  · have hpush : fields.push name d = refuse .reservedField := by rw [FieldOrder.push, if_pos hid]
    rw [if_pos hid, hpush]
    exact ⟨rfl, h⟩
  rw [if_neg hid]
  by_cases hcontains : fields.contains name = true
  · have hpush : fields.push name d = refuse (.duplicateField name) := by
      rw [FieldOrder.push, if_neg hid, if_pos hcontains]
    rw [if_pos hcontains, hpush]
    exact ⟨rfl, h⟩
  · have hpush : fields.push name d = .ok ⟨fields.fields ++ [(name, d)]⟩ := by
      rw [FieldOrder.push, if_neg hid, if_neg hcontains]
    rw [if_neg hcontains, hpush]
    refine ⟨rfl, ?_, ?_⟩
    · rw [FieldOrder.push_names hpush, ← h.order]
    · intro other
      rw [FieldOrder.push_get? hpush, ← h.get?]
      show (k.dists.insert name d)[other]? = _
      rw [Std.HashMap.getElem?_insert]
      exact if_congr (beq_iff_eq.trans eq_comm) rfl rfl

/-- A refused field leaves the names and the table as they were. -/
theorem push_eq_error (h : k.push name d = (.error f, k')) : k' = k := by
  rw [push] at h
  split at h
  · cases h
    rfl
  · split at h
    · cases h
      rfl
    · cases h

/-- Whatever calls were made, a field order on which the same calls are made is represented. -/
theorem represents_of_called (h : holders.Called k accepted) :
    ∃ fields, FieldOrder.holders.Called fields accepted ∧ k.Represents fields := by
  -- one call on the represented order, with the answer that the keyed fields gave
  have hstep : ∀ {k k' : KeyedFields} {fields : FieldOrder} {name : String} {d : Distribution}
      {r : Except Fault Unit}, k.Represents fields → k.push name d = (r, k') →
      ∃ fields', FieldOrder.holders.push fields name d = (r, fields') ∧ k'.Represents fields' := by
    intro k k' fields name d r hk hpush
    obtain ⟨hanswer, hrep⟩ := hk.push name d
    rw [hpush] at hanswer hrep
    exact ⟨_, Prod.ext hanswer.symm rfl, hrep⟩
  induction h with
  | nothing => exact ⟨.empty, .nothing, rfl, fun name => Std.HashMap.getElem?_empty⟩
  | pushed _ hpush ih =>
    obtain ⟨fields, hcalled, hk⟩ := ih
    obtain ⟨fields', hpush', hk'⟩ := hstep hk hpush
    exact ⟨fields', .pushed hcalled hpush', hk'⟩
  | refused _ hpush ih =>
    obtain ⟨fields, hcalled, hk⟩ := ih
    obtain ⟨fields', hpush', hk'⟩ := hstep hk hpush
    exact ⟨fields', .refused hcalled hpush', hk'⟩
  | added _ hadd ih =>
    obtain ⟨fields, hcalled, hk⟩ := ih
    obtain ⟨fields', hpush', hk'⟩ := hstep hk (Holders.adding_eq_ok_iff.mp hadd)
    exact ⟨fields', .added hcalled (Holders.adding_eq_ok_iff.mpr hpush'), hk'⟩

theorem Represents.agrees (h : k.Represents fields) (hfields : FieldOrder.holders.Agrees fields accepted) :
    holders.Agrees k accepted := by
  have hnames : holders.names k = FieldOrder.holders.names fields := h.order
  exact {
    ordered := hnames.trans hfields.ordered
    nodup := hnames ▸ hfields.nodup
    unreserved := hnames ▸ hfields.unreserved
    listed := fun name => by
      rw [hnames, hfields.listed]
      exact (Bool.coe_iff_coe.mpr (h.contains name)).symm
    given := fun name d => by
      rw [← hfields.given]
      exact Eq.congr_left (h.get? name)
    counted := by
      rw [← hfields.counted]
      exact (congrArg List.length h.order).trans (List.length_map _) }

/-- After any calls, of which any may be refused, the names of a holder stand once and in the order of
the accepted calls, the reserved name is not among them, they are the names that can be drawn, each
with the distribution of the one call that was accepted for it, and there are as many as accepted
calls. A refused field leaves names and distributions as they were. This is so whether the pairs are
kept together or the names apart from the table, and the two answer every call in the same way. -/
theorem calls_agree :
    (∀ fields accepted, FieldOrder.holders.Called fields accepted →
      FieldOrder.holders.Agrees fields accepted) ∧
    (∀ k accepted, holders.Called k accepted → holders.Agrees k accepted ∧
      ∃ fields, FieldOrder.holders.Called fields accepted ∧ k.Represents fields ∧
        ∀ name d, (k.push name d).1 = (fields.pushing name d).1) ∧
    (∀ fields name d f fields',
      FieldOrder.holders.push fields name d = (.error f, fields') → fields' = fields) ∧
    ∀ k name d f k', holders.push k name d = (.error f, k') → k' = k := by
  refine ⟨?_, ?_, ?_, ?_⟩
  · intro fields accepted hcalled
    exact FieldOrder.agrees_of_called hcalled
  · intro k accepted hcalled
    obtain ⟨fields, hfields, hk⟩ := represents_of_called hcalled
    exact ⟨hk.agrees (FieldOrder.agrees_of_called hfields), fields, hfields, hk,
      fun name d => (hk.push name d).1⟩
  · intro fields name d f fields' hpush
    exact FieldOrder.pushing_eq_error hpush
  · intro k name d f k' hpush
    exact push_eq_error hpush

/-- The fields of a holder with one name. -/
def oneName : KeyedFields := ⟨["age"], (∅ : Std.HashMap String Distribution).insert "age" fun _ => pure (.uint 7)⟩

/-- The fields of a holder with two names. -/
def twoNames : KeyedFields := ⟨["age", "name"], oneName.dists.insert "name" fun _ => pure .null⟩

/-- A field is added, refused when it is added again, as is one with the reserved name; a second one
is added then. -/
theorem calls_agree_twoFields :
    ∃ k : KeyedFields,
      holders.Called k [("age", fun _ => pure (.uint 7)), ("name", fun _ => pure .null)] ∧
      holders.Agrees k [("age", fun _ => pure (.uint 7)), ("name", fun _ => pure .null)] := by
  have hage : holders.push empty "age" (fun _ => pure (.uint 7)) = (.ok (), oneName) := by
    simp [holders, push, contains, empty, idField, oneName]
  have hagain : holders.push oneName "age" (fun _ => pure .null) =
      (.error (.invalidArgument (.duplicateField "age")), oneName) := by
    simp [holders, push, contains, idField, oneName, refuse]
  have hid : holders.push oneName "id" (fun _ => pure .null) =
      (.error (.invalidArgument .reservedField), oneName) := by
    simp [holders, push, idField, refuse]
  have hname : holders.adding oneName "name" (fun _ => pure .null) = .ok twoNames := by
    rw [Holders.adding_eq_ok_iff]
    simp [holders, push, contains, idField, oneName, twoNames]
  have hcalled : holders.Called twoNames
      [("age", fun _ => pure (.uint 7)), ("name", fun _ => pure .null)] :=
    .added (.refused (.refused (.pushed .nothing hage) hagain) hid) hname
  exact ⟨twoNames, hcalled, (calls_agree.2.1 twoNames _ hcalled).1⟩

end KeyedFields

end SeededRows
