/-
  SeededRows.Proofs.Engine.Replay

  Rows that are drawn again. The engine draws the fields of a row one after another from one
  source, so what it draws for the first names is the same whatever names follow, and a row with a
  seed is the same whichever engine draws it. An engine for fewer fields draws the same row with
  its last fields left out.
-/
import SeededRows.Aggregator.Histogram
import SeededRows.Proofs.Engine.Digest
import SeededRows.Proofs.FieldOrder

namespace SeededRows

/-! ## Rows with some fields only -/

/-- The row with only the named fields. -/
def Row.restrict (row : Row) (names : List String) : Row :=
  { row with fields := row.fields.filter fun field => names.contains field.1 }

theorem Row.put_of_not_mem {name : String} {v : Value} {fields : List (String × Value)}
    (h : name ∉ fields.map Prod.fst) : Row.put name v fields = fields ++ [(name, v)] := by
  induction fields with
  | nil => rfl
  | cons field fields ih =>
    simp only [List.map_cons, List.mem_cons, not_or] at h
    have hne : field.1 ≠ name := fun heq => h.1 heq.symm
    rw [Row.put, if_neg hne, ih h.2, List.cons_append]

/-- What is left of a row when the fields after the named ones go. -/
theorem Row.restrict_append {id : UInt64} {first more : List (String × Value)}
    (h : ((first ++ more).map Prod.fst).Nodup) :
    (Row.mk id (first ++ more)).restrict (first.map Prod.fst) = ⟨id, first⟩ := by
  rw [List.map_append, List.nodup_append] at h
  have hfirst : (first.filter fun field => (first.map Prod.fst).contains field.1) = first := by
    apply List.filter_eq_self.mpr
    intro field hfield
    simpa using List.mem_map_of_mem (f := Prod.fst) hfield
  have hmore : (more.filter fun field => (first.map Prod.fst).contains field.1) = [] := by
    apply List.filter_eq_nil_iff.mpr
    intro field hfield hcontains
    have hmem : field.1 ∈ first.map Prod.fst := List.contains_iff_mem.mp hcontains
    exact h.2.2 _ hmem _ (List.mem_map_of_mem hfield) rfl
  rw [Row.restrict, List.filter_append, hfirst, hmore, List.append_nil]

/-! ## Drawing fields -/

section Drawing

variable {order order' : FieldOrder} {names more : List String} {source : Random.Source} {row row' : Row}

/-- A first field that is drawn goes into the row before the others are drawn. -/
theorem drawFields_cons {name : String} {d : Distribution} {v : Value} {source' : Random.Source}
    (hget : order.get? name = some d) (hdraw : d row source = (.ok v, source')) :
    drawFields order (name :: names) source row = drawFields order names source' (row.insert name v) := by
  simp only [drawFields, hget, hdraw]

/-- Fields are drawn when the first one is, and then the others. -/
theorem drawFields_cons_eq_ok {name : String}
    (h : drawFields order (name :: names) source row = .ok row') : ∃ d v source',
      order.get? name = some d ∧ d row source = (.ok v, source') ∧
        drawFields order names source' (row.insert name v) = .ok row' := by
  cases hget : order.get? name with
  | none =>
    simp only [drawFields, hget] at h
    cases h
  | some d =>
    rcases hdraw : d row source with ⟨stop | v, source'⟩
    · simp only [drawFields, hget, hdraw] at h
      cases h
    · rw [drawFields_cons hget hdraw] at h
      exact ⟨d, v, source', rfl, hdraw, h⟩

/-- Fields are drawn alike where the orders have the same distributions. -/
theorem drawFields_congr (h : ∀ name ∈ names, order'.get? name = order.get? name) :
    drawFields order' names source row = drawFields order names source row := by
  induction names generalizing source row with
  | nil => rfl
  | cons name names ih =>
    have hrest : ∀ name ∈ names, order'.get? name = order.get? name :=
      fun n hn => h n (List.mem_cons_of_mem name hn)
    simp only [drawFields, h name List.mem_cons_self, ih hrest]

/-- A draw that stops among the first names stops there, whatever follows. -/
theorem drawFields_append_error {stop : Stop} (h : drawFields order names source row = .error stop) :
    drawFields order (names ++ more) source row = .error stop := by
  induction names generalizing source row with
  | nil => cases h
  | cons name names ih =>
    cases hget : order.get? name with
    | none =>
      simp only [List.cons_append, drawFields, hget] at h ⊢
      exact h
    | some d =>
      rcases hdraw : d row source with ⟨stop' | v, source'⟩
      · simp only [List.cons_append, drawFields, hget, hdraw] at h ⊢
        exact h
      · rw [drawFields_cons hget hdraw] at h
        rw [List.cons_append, drawFields_cons hget hdraw]
        exact ih h

/-- A row that is drawn through some names is drawn through the first of them on the way. -/
theorem drawFields_append_ok (h : drawFields order (names ++ more) source row = .ok row') :
    ∃ source' mid, drawFields order names source row = .ok mid ∧
      drawFields order more source' mid = .ok row' := by
  induction names generalizing source row with
  | nil => exact ⟨source, row, rfl, h⟩
  | cons name names ih =>
    obtain ⟨d, v, source', hget, hdraw, hrest⟩ := drawFields_cons_eq_ok h
    rw [drawFields_cons hget hdraw]
    exact ih hrest

/-- New names are drawn in order, each as one field at the end of the row. -/
theorem fields_drawFields (h : drawFields order names source row = .ok row') (hnames : names.Nodup)
    (hnew : ∀ name ∈ names, name ∉ row.fields.map Prod.fst) :
    ∃ drawn, row'.fields = row.fields ++ drawn ∧ drawn.map Prod.fst = names := by
  induction names generalizing source row with
  | nil =>
    cases h
    exact ⟨[], by simp⟩
  | cons name names ih =>
    obtain ⟨d, v, source', -, -, hrest⟩ := drawFields_cons_eq_ok h
    have hput : (row.insert name v).fields = row.fields ++ [(name, v)] :=
      Row.put_of_not_mem (hnew name List.mem_cons_self)
    obtain ⟨hname, hnames⟩ := List.nodup_cons.mp hnames
    have hnew' : ∀ n ∈ names, n ∉ (row.insert name v).fields.map Prod.fst := by
      intro n hn hmem
      rw [hput, List.map_append, List.mem_append] at hmem
      rcases hmem with hold | hlast
      · exact hnew n (List.mem_cons_of_mem name hn) hold
      · have heq : n = name := by simpa using hlast
        exact hname (heq ▸ hn)
    obtain ⟨drawn, hfields, hkeys⟩ := ih hrest hnames hnew'
    refine ⟨(name, v) :: drawn, ?_, ?_⟩
    · rw [hfields, hput, List.append_assoc, List.singleton_append]
    · rw [List.map_cons, hkeys]

/-- Through the first names the same row is drawn, but without the fields that come after. -/
theorem drawFields_restrict {id : UInt64} (hnames : (names ++ more).Nodup)
    (h : drawFields order (names ++ more) source (.empty id) = .ok row') :
    drawFields order names source (.empty id) = .ok (row'.restrict names) := by
  obtain ⟨source', mid, hmid, hrow'⟩ := drawFields_append_ok h
  obtain ⟨hnodup, hnodup', hapart⟩ := List.nodup_append.mp hnames
  have hnone : ∀ name ∈ names, name ∉ (Row.empty id).fields.map Prod.fst := by simp [Row.empty]
  obtain ⟨drawn, hfields, hkeys⟩ := fields_drawFields hmid hnodup hnone
  have hmidkeys : mid.fields.map Prod.fst = names := by
    rw [hfields, ← hkeys]
    rfl
  have hnew : ∀ name ∈ more, name ∉ mid.fields.map Prod.fst := by
    intro name hname hmem
    rw [hmidkeys] at hmem
    exact hapart name hmem name hname rfl
  obtain ⟨drawn', hfields', hkeys'⟩ := fields_drawFields hrow' hnodup' hnew
  have heq : row' = ⟨mid.id, mid.fields ++ drawn'⟩ := by
    rw [← hfields', ← drawFields_id hrow']
  have hall : ((mid.fields ++ drawn').map Prod.fst).Nodup := by
    rw [List.map_append, hmidkeys, hkeys']
    exact hnames
  rw [hmid, heq, ← hmidkeys, Row.restrict_append hall]

end Drawing

/-! ## Engines at any time -/

/-- The fields to draw are the first ones of the order. -/
theorem selectFields_begins {σ : Type} {order : FieldOrder} {copies : List (Copy σ)}
    {fields : List String} (h : selectFields order copies = .ok fields) : fields <+: order.names := by
  simp only [selectFields] at h
  split at h
  · cases h
    rw [prefixThrough, ← List.reverse_suffix, List.reverse_reverse]
    exact List.dropWhile_suffix _
  · cases h

/-- The selection looks at the aggregators only, not at the states of their copies. -/
theorem selectFields_clone {σ : Type} (order : FieldOrder) (copies : List (Copy σ)) :
    selectFields order (copies.map Copy.clone) = selectFields order copies := by
  have hneeded : neededFields (copies.map Copy.clone) = neededFields copies := by
    rw [neededFields, neededFields, List.flatMap_map]
    rfl
  rw [selectFields, selectFields, hneeded]

namespace Engine

variable {σ τ : Type} {order order' : FieldOrder}

/-- An engine that was made for some configured aggregators, after any batches, failed ones too,
and perhaps after its end. Drawing a row leaves an engine as it is. -/
inductive Lives (order : FieldOrder) (configured : List (Copy σ)) : Engine σ → Prop
  | start {e : Engine σ} {copies : List (Copy σ)} :
      Engine.start order configured = (.ok e, copies) → Lives order configured e
  | process {e : Engine σ} (entropy : Entropy) (cancelled : Nat → Bool) (specs : List RowSpec) :
      Lives order configured e → Lives order configured (e.process entropy cancelled specs).2
  | done {e : Engine σ} : Lives order configured e → Lives order configured e.done.2

theorem process_keeps (e : Engine σ) (entropy : Entropy) (cancelled : Nat → Bool)
    (specs : List RowSpec) : (e.process entropy cancelled specs).2.order = e.order ∧
      (e.process entropy cancelled specs).2.fields = e.fields := by
  rw [process]
  split
  · exact ⟨rfl, rfl⟩
  · exact ⟨rfl, rfl⟩

/-- Whatever an engine went through, it draws the fields that were selected for its aggregators. -/
theorem Lives.selected {configured : List (Copy σ)} {e : Engine σ} (h : e.Lives order configured) :
    e.order = order ∧ selectFields order configured = .ok e.fields := by
  induction h with
  | start hstart =>
    rw [Engine.start, selectFields_clone] at hstart
    split at hstart
    · cases hstart
    · rename_i fields hfields
      split at hstart
      · cases hstart
        exact ⟨rfl, hfields⟩
      · cases hstart
  | @process e entropy cancelled specs _ ih =>
    obtain ⟨horder, hfields⟩ := e.process_keeps entropy cancelled specs
    rw [horder, hfields]
    exact ih
  | done _ ih => exact ih

/-- A row with a seed does not depend on who draws it. Take engines for two lists of aggregators, at
any time, the second with the fields of the first and perhaps more pushed after them, and let
the first one draw not more fields than the second. Then the first one draws the row of the second
without the other fields; and where it stops, the second one stops for the same reason. -/
theorem row_of_seed (hbuilt : order.Built) (hgrows : order.Grows order')
    {configured : List (Copy σ)} {configured' : List (Copy τ)} {fields fields' : List String}
    (hfields : selectFields order configured = .ok fields)
    (hfields' : selectFields order' configured' = .ok fields')
    (hlen : fields.length ≤ fields'.length)
    {e : Engine σ} {e' : Engine τ} (he : e.Lives order configured) (he' : e'.Lives order' configured')
    {spec : RowSpec} (hseed : spec.seed ≠ none) (entropy entropy' : Entropy) :
    (∀ row', e'.generateRow entropy' spec = .ok row' →
      e.generateRow entropy spec = .ok (row'.restrict fields) ∧ row'.id = spec.id) ∧
    ∀ stop, e.generateRow entropy spec = .error stop → e'.generateRow entropy' spec = .error stop := by
  obtain ⟨horder, hselected⟩ := he.selected
  obtain ⟨horder', hselected'⟩ := he'.selected
  have heq : fields = e.fields := Except.ok.inj (hfields.symm.trans hselected)
  have heq' : fields' = e'.fields := Except.ok.inj (hfields'.symm.trans hselected')
  -- both selections begin the longer order
  have hprefix : fields <+: order'.names := (selectFields_begins hfields).trans hgrows.names
  obtain ⟨more, hmore⟩ := List.prefix_of_prefix_length_le hprefix (selectFields_begins hfields') hlen
  have hnodup : (fields ++ more).Nodup := by
    rw [hmore]
    exact (hbuilt.grows hgrows).names_nodup.sublist (selectFields_begins hfields').sublist
  have hget : ∀ name ∈ fields, order'.get? name = order.get? name := fun name hname =>
    hgrows.get? ((selectFields_begins hfields).subset hname)
  have hsource := RowSpec.source_of_seed hseed entropy entropy'
  simp only [generateRow, horder, horder', ← heq, ← heq', hsource, ← hmore]
  refine ⟨?_, ?_⟩
  · intro row' hrow'
    refine ⟨?_, drawFields_id hrow'⟩
    rw [← drawFields_congr hget]
    exact drawFields_restrict hnodup hrow'
  · intro stop hstop
    rw [← drawFields_congr hget] at hstop
    exact drawFields_append_error hstop

/-- A field whose values are taken from the source. -/
def drawnField : Distribution := fun _ => do return .uint (← Draw.take (·.wide))

/-- A field that reads the one before it. -/
def copyField : Distribution := fun row => pure ((row.get? "a").getD .null)

/-- An order with a field that draws. -/
def oneField : FieldOrder := ⟨[("a", drawnField)]⟩

/-- The same with a copy of that field after it. -/
def twoFields : FieldOrder := ⟨oneField.fields ++ [("b", copyField)]⟩

/-- The first two words of the source with the seed 42, as one. -/
theorem wide_ofSeed_42 : (Random.Source.ofSeed 42).wide.1 = 12578764544318200737 := by decide +kernel

/-- One row for an aggregator of the first field and for one of its copy. -/
theorem row_of_seed_two : ∃ e e' : Engine Unit, e.order = oneField ∧ e'.order = twoFields ∧
    e'.generateRow (fun _ => .ofSeed 0) ⟨5, some 42⟩ =
      .ok ⟨5, [("a", .uint 12578764544318200737), ("b", .uint 12578764544318200737)]⟩ ∧
    e.generateRow (fun _ => .ofSeed 1) ⟨5, some 42⟩ =
      .ok ⟨5, [("a", .uint 12578764544318200737)]⟩ := by
  have hone : FieldOrder.empty.push "a" drawnField = .ok oneField := rfl
  have htwo : oneField.push "b" copyField = .ok twoFields := rfl
  let first : List (Copy Unit) := [.fresh (.histogram Unit "a") ()]
  let second : List (Copy Unit) := [.fresh (.histogram Unit "b") ()]
  have hfirst : selectFields oneField first = .ok ["a"] := rfl
  have hsecond : selectFields twoFields second = .ok ["a", "b"] := rfl
  let e : Engine Unit := ⟨oneField, ["a"], (Engine.start oneField first).2⟩
  let e' : Engine Unit := ⟨twoFields, ["a", "b"], (Engine.start twoFields second).2⟩
  have he : Lives oneField first e := .start rfl
  have he' : Lives twoFields second e' := .start rfl
  have hseed : (⟨5, some 42⟩ : RowSpec).seed ≠ none := by decide
  have hrow' : e'.generateRow (fun _ => .ofSeed 0) ⟨5, some 42⟩ =
      .ok ⟨5, [("a", .uint 12578764544318200737), ("b", .uint 12578764544318200737)]⟩ := by
    rw [← wide_ofSeed_42]
    rfl
  have hrow := row_of_seed (.push .refl hone) (.push .refl htwo) hfirst hsecond (by decide) he he'
    hseed (fun _ => .ofSeed 1) (fun _ => .ofSeed 0)
  exact ⟨e, e', rfl, rfl, hrow', (hrow.1 _ hrow').1⟩

end Engine

end SeededRows
