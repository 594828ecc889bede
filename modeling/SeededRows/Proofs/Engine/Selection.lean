/-
  SeededRows.Proofs.Engine.Selection

  Which fields an engine draws. The selection is the shortest beginning of the order that has every
  needed field; it fails when a needed field is not in the order at all, and reports all of these.
  So an engine that was made never looks for a field that it cannot draw, its rows have just the
  selected fields, and no stock aggregator of it misses a field in them.
-/
import Mathlib.Data.List.DropRight
import SeededRows.Proofs.Aggregator.Kinds
import SeededRows.Proofs.Engine.DrawFailures
import SeededRows.Proofs.Engine.Reductions
import SeededRows.Proofs.Names

namespace SeededRows

variable {σ : Type} {order : FieldOrder} {copies configured : List (Copy σ)} {fields names : List String}

/-! ## Needed fields -/

/-- A field that one of the aggregators reads. The row id need not be drawn. -/
def Copies.Needs (copies : List (Copy σ)) (name : String) : Prop :=
  name ≠ idField ∧ ∃ c ∈ copies, name ∈ c.aggregator.fieldsNeeded

theorem mem_neededFields {name : String} :
    name ∈ neededFields copies ↔ Copies.Needs copies name := by
  rw [neededFields, List.mem_filter, List.mem_flatMap, Copies.Needs, and_comm, decide_eq_true_iff]

/-! ## Shortest beginnings -/

/-- The shortest beginning of a list that has all the names with a property: it is empty, or its
last name is one of them. -/
structure ShortestBeginning (names : List String) (P : String → Prop) (fields : List String) :
    Prop where
  begins : fields <+: names
  has : ∀ name, P name → name ∈ fields
  shortest : ∀ shorter, shorter <+: names → (∀ name, P name → name ∈ shorter) →
    fields.length ≤ shorter.length
  last : ∀ name, fields.getLast? = some name → P name

theorem ShortestBeginning.unique {P : String → Prop} {fields' : List String}
    (h : ShortestBeginning names P fields) (h' : ShortestBeginning names P fields') :
    fields = fields' := by
  have hlen : fields.length = fields'.length :=
    Nat.le_antisymm (h.shortest _ h'.begins h'.has) (h'.shortest _ h.begins h.has)
  exact (List.prefix_of_prefix_length_le h.begins h'.begins hlen.le).eq_of_length hlen

/-- A needed name of the list is among the first ones. -/
theorem mem_prefixThrough {needed : List String} {name : String} (hneeded : name ∈ needed)
    (hname : name ∈ names) : name ∈ prefixThrough needed names := by
  have hsplit := List.rdropWhile_append_rtakeWhile (p := fun name => !needed.contains name) (l := names)
  rw [← hsplit, List.mem_append] at hname
  rcases hname with hfirst | hlater
  · exact hfirst
  · -- the names that are left out are not needed
    have hnot := List.mem_rtakeWhile_imp hlater
    rw [List.contains_iff_mem.mpr hneeded] at hnot
    cases hnot

/-- Where no name stands twice, the beginning through the last needed name is the shortest one. -/
theorem shortest_prefixThrough {needed : List String} (hnodup : names.Nodup)
    (hneeded : ∀ name ∈ needed, name ∈ names) :
    ShortestBeginning names (· ∈ needed) (prefixThrough needed names) := by
  have hbegins : prefixThrough needed names <+: names := List.rdropWhile_prefix _ _
  have hlast : ∀ name, (prefixThrough needed names).getLast? = some name → name ∈ needed := by
    intro name hname
    have hne : prefixThrough needed names ≠ [] := by
      intro hnil
      rw [hnil] at hname
      cases hname
    obtain rfl := Option.some.inj ((List.getLast?_eq_some_getLast hne).symm.trans hname)
    have hnot : ¬ (!needed.contains ((prefixThrough needed names).getLast hne)) = true :=
      List.rdropWhile_last_not _ names hne
    rwa [Bool.not_eq_true, Bool.not_eq_false', List.contains_iff_mem] at hnot
  refine ⟨hbegins, fun name hname => mem_prefixThrough hname (hneeded name hname), ?_, hlast⟩
  intro shorter hshorter hhas
  by_contra hlt
  obtain ⟨more, hmore⟩ := List.prefix_of_prefix_length_le hshorter hbegins (by omega)
  -- the last name of the beginning comes after the shorter one, which has it as well
  have hne : more ≠ [] := by
    rintro rfl
    rw [List.append_nil] at hmore
    rw [hmore] at hlt
    exact hlt le_rfl
  have hend : (prefixThrough needed names).getLast? = some (more.getLast hne) := by
    rw [← hmore, List.getLast?_append_of_ne_nil _ hne, List.getLast?_eq_some_getLast hne]
  have hapart := List.nodup_append.mp (hmore ▸ hnodup.sublist hbegins.sublist)
  exact hapart.2.2 _ (hhas _ (hlast _ hend)) _ (List.getLast_mem hne) rfl

/-! ## The selection -/

/-- The selection fails for the set of the needed fields that are not in the order, if there are
any. -/
theorem selectFields_eq_error_iff {f : Fault} : selectFields order copies = .error f ↔
    ∃ missing, f = .missingFields missing ∧ missing ≠ [] ∧
      Names.IsSet missing fun name => Copies.Needs copies name ∧ name ∉ order.names := by
  have hmem (name : String) :
      name ∈ (neededFields copies).filter (fun name => !order.contains name) ↔
        Copies.Needs copies name ∧ name ∉ order.names := by
    rw [List.mem_filter, mem_neededFields, ← FieldOrder.contains_iff]
    simp
  have hset := Names.isSet_ofList ((neededFields copies).filter fun name => !order.contains name)
  simp only [selectFields]
  generalize hmissing : (neededFields copies).filter (fun name => !order.contains name) = missing at hmem hset ⊢
  cases missing with
  | nil =>
    constructor
    · intro h
      cases h
    · rintro ⟨set, -, hne, hset'⟩
      -- whatever stands in the set would be missing
      obtain ⟨name, hname⟩ := List.exists_mem_of_ne_nil set hne
      exact absurd ((hmem name).mpr ((hset'.mem_iff name).mp hname)) List.not_mem_nil
  | cons name rest =>
    have hset' : Names.IsSet (Names.ofList (name :: rest))
        fun name => Copies.Needs copies name ∧ name ∉ order.names :=
      ⟨hset.increasing, fun n => (hset.mem_iff n).trans (hmem n)⟩
    constructor
    · intro h
      cases h
      refine ⟨_, rfl, ?_, hset'⟩
      exact List.ne_nil_of_mem ((hset.mem_iff name).mpr List.mem_cons_self)
    · rintro ⟨set, rfl, -, hset''⟩
      rw [hset''.unique hset']

/-- The selection succeeds when every needed field is in the order, with the shortest beginning of
it that has them all. -/
theorem selectFields_eq_ok_iff (hnodup : order.names.Nodup) : selectFields order copies = .ok fields ↔
    (∀ name, Copies.Needs copies name → name ∈ order.names) ∧
      ShortestBeginning order.names (Copies.Needs copies) fields := by
  cases hselect : selectFields order copies with
  | error f =>
    obtain ⟨missing, -, hne, hset⟩ := selectFields_eq_error_iff.mp hselect
    refine iff_of_false (fun h => nomatch h) ?_
    rintro ⟨hall, -⟩
    obtain ⟨name, hname⟩ := List.exists_mem_of_ne_nil missing hne
    obtain ⟨hneeds, habsent⟩ := (hset.mem_iff name).mp hname
    exact habsent (hall name hneeds)
  | ok selected =>
    have hall : ∀ name, Copies.Needs copies name → name ∈ order.names := by
      by_contra hmissing
      push Not at hmissing
      obtain ⟨name, hneeds, habsent⟩ := hmissing
      simp only [selectFields] at hselect
      have hmem : name ∈ (neededFields copies).filter (fun name => !order.contains name) := by
        rw [List.mem_filter, mem_neededFields, Bool.not_eq_true', ← Bool.not_eq_true, FieldOrder.contains_iff]
        exact ⟨hneeds, habsent⟩
      split at hselect
      · rename_i hnone
        rw [hnone] at hmem
        cases hmem
      · cases hselect
    have hselected : selected = prefixThrough (neededFields copies) order.names := by
      simp only [selectFields] at hselect
      split at hselect
      · exact (Except.ok.inj hselect).symm
      · cases hselect
    have hshortest := shortest_prefixThrough hnodup
      fun name hname => hall name (mem_neededFields.mp hname)
    have hneeds : (· ∈ neededFields copies) = Copies.Needs copies :=
      funext fun name => propext mem_neededFields
    rw [← hselected, hneeds] at hshortest
    rw [Except.ok.injEq]
    constructor
    · rintro rfl
      exact ⟨hall, hshortest⟩
    · rintro ⟨-, h⟩
      exact hshortest.unique h

/-! ## Rows of the selected fields -/

/-- Where the order has all the names, what stops their drawing is what one of their distributions
stops with. -/
theorem drawFields_stop (hnames : ∀ name ∈ names, name ∈ order.names) {source : Random.Source}
    {row : Row} {stop : Stop} (h : drawFields order names source row = .error stop) :
    ∃ name ∈ names, ∃ d row' source', order.get? name = some d ∧ (d row' source').1 = .error stop := by
  induction names generalizing source row with
  | nil => cases h
  | cons name names ih =>
    obtain ⟨d, hd⟩ := Option.isSome_iff_exists.mp
      (FieldOrder.contains_iff.mpr (hnames name List.mem_cons_self))
    rcases hdraw : d row source with ⟨stop' | v, source'⟩
    · simp only [drawFields, hd, hdraw] at h
      cases h
      exact ⟨name, List.mem_cons_self, d, row, source, hd, congrArg Prod.fst hdraw⟩
    · rw [drawFields_cons hd hdraw] at h
      obtain ⟨name', hname', hstop⟩ := ih (fun n hn => hnames n (List.mem_cons_of_mem _ hn)) h
      exact ⟨name', List.mem_cons_of_mem _ hname', hstop⟩

/-- A row has the values of its fields and of its id. -/
theorem Row.isSome_value? {row : Row} {name : String}
    (h : name ≠ idField → name ∈ row.fields.map Prod.fst) : (row.value? name).isSome = true := by
  rw [Row.value?]
  split
  · rfl
  · rename_i hname
    exact FieldOrder.mem_names_of_lookup.mpr (h hname)

theorem Copies.aggregators_mapReduce (rows : List Row) (copies : List (Copy σ)) :
    Copies.aggregators (Copies.mapReduce rows copies).2 = Copies.aggregators copies := by
  induction copies with
  | nil => rfl
  | cons c rest ih =>
    rw [Copies.mapReduce]
    split
    · rename_i hc
      exact congrArg (· :: Copies.aggregators rest) (congrArg (·.2.aggregator) hc).symm
    · rename_i hc
      exact congrArg₂ List.cons (congrArg (·.2.aggregator) hc).symm ih

namespace Engine

variable {e : Engine σ}

/-- Whatever an engine went through, its copies are copies of the configured aggregators. -/
theorem Lives.aggregators (h : e.Lives order configured) :
    Copies.aggregators e.copies = Copies.aggregators configured := by
  induction h with
  | @start e copies hstart =>
    have hcontinue := (Copies.start_continue [] (configured.map Copy.clone)).aggregators
    rw [List.nil_append, Copies.aggregators_clones] at hcontinue
    rw [Engine.start] at hstart
    split at hstart
    · cases hstart
    · split at hstart
      · rename_i hcopies
        cases hstart
        rw [hcopies] at hcontinue
        exact hcontinue
      · cases hstart
  | @process e entropy cancelled specs _ ih =>
    rw [Engine.process]
    split
    · exact ih
    · exact (Copies.aggregators_mapReduce _ e.copies).trans ih
  | @done e _ ih => exact (Copies.finish_continue e.copies none).aggregators.trans ih

/-- What an engine makes of its fields, whatever the row spec: what stops a row is what one of the
selected distributions stops with, never that there is none; a row has its id and just the selected
fields in order; and no stock aggregator of the engine, on whichever copy, misses a field in its
rows. -/
structure Supplied (e : Engine σ) : Prop where
  stops : ∀ entropy spec stop, e.generateRow entropy spec = .error stop →
    ∃ name ∈ e.fields, ∃ d row source, e.order.get? name = some d ∧ (d row source).1 = .error stop
  fields : ∀ entropy spec row, e.generateRow entropy spec = .ok row →
    row.id = spec.id ∧ row.fields.map Prod.fst = e.fields
  feeds : ∀ rows, (∀ row ∈ rows, ∃ entropy spec, e.generateRow entropy spec = .ok row) →
    ∀ c : Copy σ, c.aggregator ∈ Copies.aggregators e.copies → c.aggregator.IsStock →
    ∀ stop, (c.mapReduce rows).1 = .error stop →
    ∀ name field row, stop ≠ .fault (Aggregator.lacksField name field row)

theorem Lives.supplied (hbuilt : order.Built) (h : e.Lives order configured) : e.Supplied := by
  obtain ⟨rfl, hselected⟩ := h.selected
  obtain ⟨-, hshortest⟩ := (selectFields_eq_ok_iff hbuilt.names_nodup).mp hselected
  have hfields : ∀ entropy spec row, e.generateRow entropy spec = .ok row →
      row.id = spec.id ∧ row.fields.map Prod.fst = e.fields := by
    intro entropy spec row hrow
    have hnodup := hbuilt.names_nodup.sublist hshortest.begins.sublist
    obtain ⟨drawn, hdrawn, hkeys⟩ := fields_drawFields hrow hnodup (by simp [Row.empty])
    rw [hdrawn]
    exact ⟨drawFields_id hrow, hkeys⟩
  refine ⟨fun entropy spec stop => drawFields_stop hshortest.begins.subset, hfields, ?_⟩
  intro rows hrows c hc hstock stop hstop
  refine hstock.not_lacksField (fun row hrow field hfield => Row.isSome_value? fun hid => ?_) hstop
  -- the aggregator needs the field, so it was selected
  obtain ⟨entropy, spec, hdrawn⟩ := hrows row hrow
  rw [h.aggregators] at hc
  obtain ⟨given, hgiven, haggregator⟩ := List.mem_map.mp hc
  rw [(hfields entropy spec row hdrawn).2]
  exact hshortest.has field ⟨hid, given, hgiven, haggregator ▸ hfield⟩

/-- A row of described fields never stops for a field that is not there. -/
theorem generateRow_ne_missingFields {specs : List FieldSpec} (hspecs : FieldOrder.ofSpecs specs = .ok e.order)
    (hselected : selectFields e.order configured = .ok e.fields) (entropy : Entropy) (spec : RowSpec)
    (missing : List String) : e.generateRow entropy spec ≠ .error (.fault (.missingFields missing)) := by
  intro hstop
  obtain ⟨drawn, -, -, -, hstops, -⟩ := draw_failures hspecs hselected entropy spec
  obtain ⟨before, f, after, source, -, -, -, hsame⟩ := hstops _ hstop
  cases hsame

/-- The selection of fields is exact: it fails just when needed fields other than the row id are not
in the order, and then for all of these; otherwise it is the shortest beginning of the order that has
every needed field. So every engine that was made, whatever it went through, draws just these fields,
never lacks one, and never gives a stock aggregator a row that lacks one. Where the fields are
described ones, no row of it stops for a missing field at all. -/
theorem selection_exact (hbuilt : order.Built) (configured : List (Copy σ)) :
    (∀ f, selectFields order configured = .error f ↔ ∃ missing, f = .missingFields missing ∧
      missing ≠ [] ∧
      Names.IsSet missing fun name => Copies.Needs configured name ∧ name ∉ order.names) ∧
    (∀ fields, selectFields order configured = .ok fields ↔
      (∀ name, Copies.Needs configured name → name ∈ order.names) ∧
        ShortestBeginning order.names (Copies.Needs configured) fields) ∧
    ∀ e : Engine σ, e.Lives order configured →
      e.order = order ∧ selectFields order configured = .ok e.fields ∧ e.Supplied ∧
      ∀ specs, FieldOrder.ofSpecs specs = .ok order → ∀ entropy spec missing,
        e.generateRow entropy spec ≠ .error (.fault (.missingFields missing)) := by
  refine ⟨fun _ => selectFields_eq_error_iff, fun _ => selectFields_eq_ok_iff hbuilt.names_nodup, ?_⟩
  intro e he
  obtain ⟨rfl, hselected⟩ := he.selected
  exact ⟨rfl, hselected, he.supplied hbuilt,
    fun _ hspecs => generateRow_ne_missingFields hspecs hselected⟩

/-- Three fields, the second of which reads the first. -/
def threeFields : FieldOrder :=
  ⟨[("a", fun _ => pure (.uint 7)), ("b", fun row => pure ((row.get? "a").getD .null)),
    ("c", fun _ => pure .null)]⟩

/-- Aggregators of the row id and of the first two fields. -/
def known : List (Copy Unit) := [.fresh (.histogram Unit "b") (), .fresh (.collect Unit ["id", "a"]) ()]

/-- The same, with one more that reads two fields that there are not. -/
def unknown : List (Copy Unit) := known ++ [.fresh (.collect Unit ["z", "b", "y", "z"]) ()]

/-- The third of three fields is not drawn; the fields that there are not are reported in order. -/
theorem selection_exact_three : threeFields.Built ∧
    ShortestBeginning threeFields.names (Copies.Needs known) ["a", "b"] ∧
    (Names.IsSet ["y", "z"] fun name => Copies.Needs unknown name ∧ name ∉ threeFields.names) ∧
    ∃ e : Engine Unit, e.Supplied ∧ e.fields = ["a", "b"] ∧
      e.generateRow (fun _ => .ofSeed 0) ⟨5, some 42⟩ = .ok ⟨5, [("a", .uint 7), ("b", .uint 7)]⟩ := by
  have hone : FieldOrder.empty.push "a" (fun _ => pure (.uint 7)) =
      .ok ⟨[("a", fun _ => pure (.uint 7))]⟩ := rfl
  have htwo : FieldOrder.push ⟨[("a", fun _ => pure (.uint 7))]⟩ "b"
      (fun row => pure ((row.get? "a").getD .null)) = .ok ⟨threeFields.fields.take 2⟩ := rfl
  have hthree : FieldOrder.push ⟨threeFields.fields.take 2⟩ "c" (fun _ => pure .null) = .ok threeFields := rfl
  have hbuilt : threeFields.Built := .push (.push (.push .refl hone) htwo) hthree
  obtain ⟨-, hok, hengine⟩ := selection_exact hbuilt known
  obtain ⟨herror, -, -⟩ := selection_exact hbuilt unknown
  have hselected : selectFields threeFields known = .ok ["a", "b"] := rfl
  have hsorted : Names.ofList ["z", "y", "z"] = ["y", "z"] :=
    (Names.isSet_ofList _).unique ⟨by decide, by simp [or_comm]⟩
  have hmissing : selectFields threeFields unknown = .error (.missingFields ["y", "z"]) := by
    rw [← hsorted]
    rfl
  let e : Engine Unit := ⟨threeFields, ["a", "b"], (Engine.start threeFields known).2⟩
  obtain ⟨-, -, hsupplied, -⟩ := hengine e (.start rfl)
  obtain ⟨missing, hsame, -, hset⟩ := (herror _).mp hmissing
  cases hsame
  exact ⟨hbuilt, ((hok _).mp hselected).2, hset, e, hsupplied, rfl, rfl⟩

end Engine

end SeededRows
