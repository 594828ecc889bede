/-
  SeededRows.Proofs.Engine.DrawFailures

  Which described fields can fail when a row is drawn. An accepted list of fields always builds its
  distributions, and every field drawn before holds a value that its description allows, so only a
  bucket can stop: one whose source was declared with another kind than a range of integers, or one
  over a row id that no signed integer holds. The first such bucket in order is the one reported.
-/
import Mathlib.Algebra.Group.Int.Defs
import Mathlib.Data.List.Nodup
import SeededRows.Proofs.Distribution.Draws
import SeededRows.Proofs.Engine.Replay

namespace SeededRows

/-! ## Orders of described fields -/

namespace FieldOrder

/-- An order of described fields: every description could be built, and the source of every bucket
is the row id or a field before it. -/
structure Describes (order : FieldOrder) (specs : List FieldSpec) : Prop where
  built : order.Built
  names : order.names = specs.map (·.name)
  builds : ∀ f ∈ specs, ∃ d, order.get? f.name = some d ∧ f.distribution.build = .ok d
  sources : ∀ before f after, specs = before ++ f :: after → ∀ source thresholds labels,
    f.distribution = .bucket source thresholds labels →
    source = idField ∨ source ∈ before.map (·.name)

variable {order order' : FieldOrder} {specs : List FieldSpec} {f : FieldSpec}

theorem checkSource_eq_ok (h : order.checkSource f = .ok ()) {source : String}
    {thresholds : List Int64} {labels : List String}
    (hbucket : f.distribution = .bucket source thresholds labels) :
    source = idField ∨ source ∈ order.names := by
  rw [checkSource, hbucket] at h
  dsimp only at h
  split at h
  · rename_i hsource
    exact hsource.symm.imp_right contains_iff.mp
  · cases h

theorem pushSpec_eq_ok (h : order.pushSpec f = .ok order') : order.checkSource f = .ok () ∧
    ∃ d, f.distribution.build = .ok d ∧ order.push f.name d = .ok order' := by
  obtain ⟨⟨⟩, hcheck, h⟩ := bind_eq_ok h
  obtain ⟨d, hbuild, hpush⟩ := bind_eq_ok h
  exact ⟨ofFault_eq_ok hcheck, d, hbuild, ofFault_eq_ok hpush⟩

/-- A field of a list with one more at its end is that one, or stands in the list before it. -/
theorem split_concat {before after : List FieldSpec} {g : FieldSpec}
    (h : specs ++ [f] = before ++ g :: after) :
    (before = specs ∧ g = f) ∨ ∃ more, specs = before ++ g :: more := by
  rcases List.eq_nil_or_concat after with rfl | ⟨more, last, rfl⟩
  · obtain ⟨rfl, hlast⟩ := List.append_inj' h rfl
    cases hlast
    exact .inl ⟨rfl, rfl⟩
  · rw [List.concat_eq_append, ← List.cons_append, ← List.append_assoc] at h
    obtain ⟨hspecs, -⟩ := List.append_inj' h rfl
    exact .inr ⟨more, hspecs⟩

/-- A pushed field keeps what is described. -/
theorem Describes.push (h : order.Describes specs) (hpush : order.pushSpec f = .ok order') :
    order'.Describes (specs ++ [f]) := by
  obtain ⟨hcheck, d, hbuild, hpush⟩ := pushSpec_eq_ok hpush
  refine ⟨.push h.built hpush, by rw [push_names hpush, h.names, List.map_append]; rfl, ?_, ?_⟩
  · intro g hg
    rcases List.mem_append.mp hg with hold | hlast
    · obtain ⟨d', hget, hbuild'⟩ := h.builds g hold
      have hmem : g.name ∈ order.names := h.names ▸ List.mem_map_of_mem hold
      exact ⟨d', ((Grows.push .refl hpush).get? hmem).trans hget, hbuild'⟩
    · rw [List.mem_singleton] at hlast
      subst hlast
      exact ⟨d, by rw [push_get? hpush, if_pos rfl], hbuild⟩
  · intro before g after hsplit source thresholds labels hbucket
    -- either the new field is the bucket itself, or it stands behind it and changes nothing
    obtain ⟨rfl, rfl⟩ | ⟨more, hbefore⟩ := split_concat hsplit
    · rw [← h.names]
      exact checkSource_eq_ok hcheck hbucket
    · exact h.sources before g more hbefore source thresholds labels hbucket

theorem Describes.pushes {more : List FieldSpec} (h : order.Describes specs)
    (hpushes : more.foldlM pushSpec order = .ok order') : order'.Describes (specs ++ more) := by
  induction more generalizing order specs with
  | nil =>
    cases hpushes
    rwa [List.append_nil]
  | cons f more ih =>
    obtain ⟨order₁, hpush, hpushes⟩ := bind_eq_ok hpushes
    rw [List.append_cons]
    exact ih (h.push hpush) hpushes

/-- An accepted list of fields is described by its order. -/
theorem describes_of_ofSpecs (h : ofSpecs specs = .ok order) : order.Describes specs := by
  have hempty : empty.Describes [] :=
    ⟨.refl, rfl, fun _ hf => absurd hf List.not_mem_nil, fun _ _ _ hsplit => by simp at hsplit⟩
  exact hempty.pushes h

end FieldOrder

/-! ## Rows of described fields -/

theorem lookup_put_self {name : String} {v : Value} {fields : List (String × Value)} :
    (Row.put name v fields).lookup name = some v := by
  fun_induction Row.put name v fields with
  | case1 => exact List.lookup_cons_self
  | case2 old rest => exact List.lookup_cons_self
  | case3 key old rest hne ih =>
    have hbeq : (name == key) = false := by simpa using Ne.symm hne
    rw [List.lookup_cons, hbeq]
    exact ih

theorem lookup_put_of_ne {name other : String} (h : other ≠ name) {v : Value}
    {fields : List (String × Value)} :
    (Row.put name v fields).lookup other = fields.lookup other := by
  fun_induction Row.put name v fields with
  | case1 =>
    have hbeq : (other == name) = false := by simpa using h
    rw [List.lookup_cons, hbeq]
  | case2 old rest =>
    have hbeq : (other == name) = false := by simpa using h
    rw [List.lookup_cons, List.lookup_cons, hbeq]
  | case3 key old rest hne ih => rw [List.lookup_cons, List.lookup_cons, ih]

/-- A row with the fields drawn so far, each with a value that its description allows. -/
structure Holds (id : UInt64) (specs : List FieldSpec) (row : Row) : Prop where
  id_eq : row.id = id
  values : ∀ f ∈ specs, ∃ v, row.get? f.name = some v ∧ f.distribution.Allows v

theorem Holds.insert {id : UInt64} {specs : List FieldSpec} {row : Row} (h : Holds id specs row)
    {f : FieldSpec} {v : Value} (hnew : f.name ∉ specs.map (·.name)) (hv : f.distribution.Allows v) :
    Holds id (specs ++ [f]) (row.insert f.name v) := by
  refine ⟨h.id_eq, fun g hg => ?_⟩
  rcases List.mem_append.mp hg with hold | hlast
  · obtain ⟨v', hget, hallows⟩ := h.values g hold
    have hne : g.name ≠ f.name := fun heq => hnew (heq ▸ List.mem_map_of_mem hold)
    exact ⟨v', (lookup_put_of_ne hne).trans hget, hallows⟩
  · rw [List.mem_singleton] at hlast
    subst hlast
    exact ⟨v, lookup_put_self, hv⟩

/-- Only the values of integer ranges read as integers. -/
theorem DistributionSpec.Allows.asInt?_eq_none_iff {d : DistributionSpec} {v : Value} (h : d.Allows v) :
    v.asInt? = none ↔ ∀ min max, d ≠ .intRange min max := by
  cases d with
  | intRange min max =>
    obtain ⟨n, rfl, -⟩ := h
    exact iff_of_false (fun heq => nomatch heq) (fun hne => hne min max rfl)
  | bool p =>
    obtain ⟨b, rfl⟩ := h
    exact iff_of_true rfl (fun _ _ heq => nomatch heq)
  | floatRange min max =>
    obtain ⟨x, rfl⟩ := h
    exact iff_of_true rfl (fun _ _ heq => nomatch heq)
  | choice options =>
    obtain ⟨option, -, rfl⟩ := h
    exact iff_of_true rfl (fun _ _ heq => nomatch heq)
  | uuid =>
    obtain ⟨s, rfl⟩ := h
    exact iff_of_true rfl (fun _ _ heq => nomatch heq)
  | dateRange min max =>
    obtain ⟨first, last, day, -, -, rfl, -⟩ := h
    exact iff_of_true rfl (fun _ _ heq => nomatch heq)
  | bucket field thresholds labels =>
    obtain ⟨label, -, rfl⟩ := h
    exact iff_of_true rfl (fun _ _ heq => nomatch heq)

/-- A row id reads as an integer below half of its range. -/
theorem asInt?_uint_eq_none_iff {id : UInt64} : (Value.uint id).asInt? = none ↔ 2 ^ 63 ≤ id.toNat := by
  have hmin : Int64.minValue.toInt = -2 ^ 63 := rfl
  have hmax : Int64.maxValue.toInt = 2 ^ 63 - 1 := rfl
  rw [Value.asInt?, Word.signed?, hmin, hmax]
  split
  · exact iff_of_false (fun heq => nomatch heq) (by omega)
  · exact iff_of_true rfl (by omega)

/-- A bucket that has no integer in the rows with an id: its source is the row id, and that is too
large, or a field that is declared as something else than a range of integers. -/
def FieldSpec.Starves (specs : List FieldSpec) (id : UInt64) (f : FieldSpec) (source : String) : Prop :=
  (∃ thresholds labels, f.distribution = .bucket source thresholds labels) ∧
    (source = idField ∧ 2 ^ 63 ≤ id.toNat ∨
      ∃ g ∈ specs, g.name = source ∧ ∀ min max, g.distribution ≠ .intRange min max)

section Drawing

variable {order : FieldOrder} {specs done todo after : List FieldSpec} {id : UInt64} {row : Row}

theorem FieldOrder.Describes.nodup (h : order.Describes specs) : (specs.map (·.name)).Nodup :=
  h.names ▸ h.built.names_nodup

theorem FieldOrder.Describes.ne_idField (h : order.Describes specs) {f : FieldSpec} (hf : f ∈ specs) :
    f.name ≠ idField := by
  intro heq
  apply h.built.idField_notMem
  rw [h.names, ← heq]
  exact List.mem_map_of_mem hf

/-- While a row is drawn, the buckets that miss their integer are those that are bound to. -/
theorem misses_iff (h : order.Describes specs) {f : FieldSpec} (hspecs : specs = done ++ f :: after)
    (hrow : Holds id done row) {source : String} :
    f.distribution.Misses row source ↔ f.Starves specs id source := by
  refine and_congr_right ?_
  rintro ⟨thresholds, labels, hbucket⟩
  rcases h.sources done f after hspecs source thresholds labels hbucket with rfl | hsource
  · have hvalue : row.value? idField = some (.uint id) := by rw [Row.value?, if_pos rfl, hrow.id_eq]
    rw [hvalue, Option.bind_some, asInt?_uint_eq_none_iff]
    constructor
    · exact fun hlarge => .inl ⟨rfl, hlarge⟩
    · rintro (⟨-, hlarge⟩ | ⟨g, hg, hname, -⟩)
      · exact hlarge
      · exact absurd hname (h.ne_idField hg)
  · obtain ⟨g, hg, rfl⟩ := List.mem_map.mp hsource
    have hmem : g ∈ specs := hspecs ▸ List.mem_append_left _ hg
    obtain ⟨v, hget, hallows⟩ := hrow.values g hg
    have hvalue : row.value? g.name = some v := by rw [Row.value?, if_neg (h.ne_idField hmem), hget]
    rw [hvalue, Option.bind_some, hallows.asInt?_eq_none_iff]
    constructor
    · exact fun hother => .inr ⟨g, hmem, rfl, hother⟩
    · rintro (⟨heq, -⟩ | ⟨g', hg', hname, hother⟩)
      · exact absurd heq (h.ne_idField hmem)
      · -- the name is declared once
        obtain rfl := List.inj_on_of_nodup_map h.nodup hg' hmem hname
        exact hother

/-- What drawing some more fields gives: values that their descriptions allow, unless one of them is
bound to miss its integer, which then stops the row at the first such field. -/
inductive Outcome (specs : List FieldSpec) (id : UInt64) (done todo : List FieldSpec) :
    Except Stop Row → Prop
  | row {row : Row} : Holds id (done ++ todo) row →
      (∀ f ∈ todo, ∀ source, ¬ f.Starves specs id source) → Outcome specs id done todo (.ok row)
  | stop {before : List FieldSpec} {f : FieldSpec} {rest : List FieldSpec} {source : String} :
      todo = before ++ f :: rest → (∀ g ∈ before, ∀ source, ¬ g.Starves specs id source) →
      f.Starves specs id source →
      Outcome specs id done todo (.error (.fault (Bucket.noInteger source)))

theorem drawFields_outcome (h : order.Describes specs) (hspecs : specs = done ++ todo ++ after)
    (hrow : Holds id done row) (source : Random.Source) :
    Outcome specs id done todo (drawFields order (todo.map (·.name)) source row) := by
  -- The row that was drawn so far holds the fields done; whether the next one stops is settled by that.
  induction todo generalizing done row source with
  | nil => exact .row (by rwa [List.append_nil]) (fun _ hf => absurd hf List.not_mem_nil)
  | cons f todo ih =>
    have hsplit : specs = done ++ f :: (todo ++ after) := by
      rw [hspecs, List.append_assoc, List.cons_append]
    obtain ⟨d, hget, hbuild⟩ := h.builds f (by simp [hsplit])
    have hdrawn := DistributionSpec.build_draw hbuild row source
    rcases hdraw : d row source with ⟨r, source'⟩
    rw [hdraw] at hdrawn
    dsimp only at hdrawn
    by_cases hstarves : ∃ field, f.Starves specs id field
    · obtain ⟨field, hstarves⟩ := hstarves
      obtain rfl := hdrawn.stops field ((misses_iff h hsplit hrow).mpr hstarves)
      simp only [List.map_cons, drawFields, hget, hdraw]
      exact .stop (List.nil_append _).symm (fun _ hg => absurd hg List.not_mem_nil) hstarves
    · have hnone : ∀ field, ¬ f.Starves specs id field := not_exists.mp hstarves
      obtain ⟨v, rfl, hallows⟩ := hdrawn.draws fun field hmisses =>
        hnone field ((misses_iff h hsplit hrow).mp hmisses)
      have hnew : f.name ∉ done.map (·.name) := by
        have hnodup := h.nodup
        rw [hsplit, List.map_append, List.map_cons] at hnodup
        exact fun hmem => (List.nodup_append.mp hnodup).2.2 _ hmem _ List.mem_cons_self rfl
      rw [List.map_cons, drawFields_cons hget hdraw]
      have hspecs' : specs = done ++ [f] ++ todo ++ after := by simpa using hsplit
      have hrest := ih hspecs' (hrow.insert hnew hallows) source'
      generalize drawFields order (todo.map (·.name)) source' (row.insert f.name v) = r at hrest
      cases hrest with
      | row hholds hothers =>
        refine .row (by rwa [List.append_cons]) ?_
        rintro g hg field
        rcases List.mem_cons.mp hg with rfl | hg
        · exact hnone field
        · exact hothers g hg field
      | @stop before g rest field hsplit' hothers hg =>
        have hcons : f :: todo = (f :: before) ++ g :: rest := by rw [hsplit', List.cons_append]
        refine .stop hcons ?_ hg
        rintro g' hg' field'
        rcases List.mem_cons.mp hg' with rfl | hg'
        · exact hnone field'
        · exact hothers g' hg' field'

end Drawing

namespace Engine

variable {σ : Type} {specs : List FieldSpec} {configured : List (Copy σ)} {e : Engine σ}

/-- Which described fields fail. Take an accepted list of fields and the selection of an accepted
list of aggregators, which is a beginning of the list. A row fails just when one of the selected fields is
a bucket over the row id, for ids that no signed integer holds, or over a field that is not a range of
integers; and it fails with the source of the first such bucket. So where every bucket is over a range
of integers or a small id, every row is drawn, each field with a value that its description allows. -/
theorem draw_failures (hspecs : FieldOrder.ofSpecs specs = .ok e.order)
    (hselected : selectFields e.order configured = .ok e.fields) (entropy : Entropy) (spec : RowSpec) :
    ∃ drawn, drawn <+: specs ∧ drawn.map (·.name) = e.fields ∧
      ((∃ stop, e.generateRow entropy spec = .error stop) ↔
        ∃ f ∈ drawn, ∃ source, f.Starves specs spec.id source) ∧
      (∀ stop, e.generateRow entropy spec = .error stop → ∃ before f after source,
        drawn = before ++ f :: after ∧ (∀ g ∈ before, ∀ s, ¬ g.Starves specs spec.id s) ∧
        f.Starves specs spec.id source ∧ stop = .fault (Bucket.noInteger source)) ∧
      ((∀ f ∈ drawn, ∀ source thresholds labels, f.distribution = .bucket source thresholds labels →
          source = idField ∧ spec.id.toNat < 2 ^ 63 ∨
            ∃ min max, ⟨source, .intRange min max⟩ ∈ specs) →
        ∃ row, e.generateRow entropy spec = .ok row ∧
          ∀ f ∈ drawn, ∃ v, row.get? f.name = some v ∧ f.distribution.Allows v) := by
  have h := FieldOrder.describes_of_ofSpecs hspecs
  obtain ⟨drawn, hdrawn, hnames⟩ : ∃ drawn, drawn <+: specs ∧ drawn.map (·.name) = e.fields := by
    have hbegins := selectFields_begins hselected
    rw [h.names, List.prefix_iff_eq_take] at hbegins
    exact ⟨specs.take e.fields.length, List.take_prefix _ _, by rw [List.map_take, ← hbegins]⟩
  obtain ⟨after, hafter⟩ := hdrawn
  have hempty : Holds spec.id [] (.empty spec.id) := ⟨rfl, fun _ hf => absurd hf List.not_mem_nil⟩
  have houtcome := drawFields_outcome h hafter.symm hempty (spec.source entropy)
  rw [hnames] at houtcome
  change Outcome specs spec.id [] drawn (e.generateRow entropy spec) at houtcome
  generalize e.generateRow entropy spec = r at houtcome
  refine ⟨drawn, ⟨after, hafter⟩, hnames, ?_⟩
  cases houtcome with
  | @row row hholds hnone =>
    refine ⟨iff_of_false ?_ ?_, ?_, fun _ => ⟨row, rfl, hholds.values⟩⟩
    · rintro ⟨stop, ⟨⟩⟩
    · rintro ⟨f, hf, source, hstarves⟩
      exact hnone f hf source hstarves
    · rintro stop ⟨⟩
  | @stop before f rest source hsplit hnone hstarves =>
    have hf : f ∈ drawn := hsplit ▸ List.mem_append_right _ List.mem_cons_self
    refine ⟨iff_of_true ⟨_, rfl⟩ ⟨f, hf, source, hstarves⟩, ?_, ?_⟩
    · rintro _ ⟨⟩
      exact ⟨before, f, rest, source, hsplit, hnone, hstarves, rfl⟩
    · intro hall
      obtain ⟨⟨thresholds, labels, hbucket⟩, hwhy⟩ := hstarves
      rcases hall f hf source thresholds labels hbucket with ⟨rfl, hsmall⟩ | ⟨min, max, hrange⟩
      · rcases hwhy with ⟨-, hlarge⟩ | ⟨g, hg, hname, -⟩
        · exact absurd hlarge (Nat.not_le.mpr hsmall)
        · exact absurd hname (h.ne_idField hg)
      · rcases hwhy with ⟨rfl, -⟩ | ⟨g, hg, hname, hother⟩
        · exact absurd rfl (h.ne_idField hrange)
        · obtain rfl := List.inj_on_of_nodup_map h.nodup hg hrange hname
          exact absurd rfl (hother min max)

/-- An integer, a bucket over it, an identifier, and buckets over that one and over the row id. -/
def fiveFields : List FieldSpec :=
  [⟨"age", .intRange 0 9⟩, ⟨"band", .bucket "age" [5] ["low", "high"]⟩, ⟨"key", .uuid⟩,
    ⟨"half", .bucket "id" [100] ["first", "second"]⟩, ⟨"tier", .bucket "key" [] ["all"]⟩]

/-- The order of these fields. -/
def fiveOrder : FieldOrder :=
  ⟨[("age", IntRange.draw ⟨0, 9, by decide⟩), ("band", Bucket.draw ⟨"age", #[5], #["low", "high"]⟩),
    ("key", Uuid.draw), ("half", Bucket.draw ⟨"id", #[100], #["first", "second"]⟩),
    ("tier", Bucket.draw ⟨"key", #[], #["all"]⟩)]⟩

/-- With a small id the first four fields are always drawn, and the fifth one never. -/
theorem draw_failures_five : ∃ e e' : Engine Unit,
    FieldOrder.ofSpecs fiveFields = .ok e.order ∧ e.fields = ["age", "band", "key", "half"] ∧
    (∀ entropy, ∃ row, e.generateRow entropy ⟨7, some 42⟩ = .ok row) ∧
    e'.order = e.order ∧ e'.fields = fiveFields.map (·.name) ∧
    ∀ entropy, e'.generateRow entropy ⟨7, some 42⟩ = .error (.fault (Bucket.noInteger "key")) := by
  have hspecs : FieldOrder.ofSpecs fiveFields = .ok fiveOrder := rfl
  let e : Engine Unit := ⟨fiveOrder, ["age", "band", "key", "half"], []⟩
  let e' : Engine Unit := ⟨fiveOrder, fiveFields.map (·.name), []⟩
  have hfour : selectFields fiveOrder [Copy.fresh (.histogram Unit "half") ()] = .ok e.fields := rfl
  have hfive : selectFields fiveOrder [Copy.fresh (.histogram Unit "tier") ()] = .ok e'.fields := rfl
  have hbegins : ∀ drawn, drawn <+: fiveFields → drawn = fiveFields.take (drawn.map (·.name)).length :=
    fun drawn hdrawn => by rw [List.length_map, ← List.prefix_iff_eq_take]; exact hdrawn
  refine ⟨e, e', hspecs, rfl, fun entropy => ?_, rfl, rfl, fun entropy => ?_⟩
  · obtain ⟨drawn, hdrawn, hnames, -, -, hrows⟩ := draw_failures (e := e) hspecs hfour entropy ⟨7, some 42⟩
    obtain ⟨row, hrow, -⟩ := hrows (by
      rw [hbegins drawn hdrawn, hnames]
      intro f hf source thresholds labels hbucket
      simp only [fiveFields, e, List.length_cons, List.length_nil, List.take_succ_cons, List.take_zero,
        List.mem_cons, List.not_mem_nil, or_false] at hf
      rcases hf with rfl | rfl | rfl | rfl
      · cases hbucket
      · cases hbucket
        exact .inr ⟨0, 9, List.mem_cons_self⟩
      · cases hbucket
      · cases hbucket
        exact .inl ⟨rfl, by decide⟩)
    exact ⟨row, hrow⟩
  · obtain ⟨drawn, hdrawn, hnames, hfails, hstop, -⟩ :=
      draw_failures (e := e') hspecs hfive entropy ⟨7, some 42⟩
    have hall : drawn = fiveFields := by
      rw [hbegins drawn hdrawn, hnames]
      rfl
    have htier : FieldSpec.Starves fiveFields 7 ⟨"tier", .bucket "key" [] ["all"]⟩ "key" := by
      refine ⟨⟨[], ["all"], rfl⟩, .inr ⟨⟨"key", .uuid⟩, by simp [fiveFields], rfl, ?_⟩⟩
      rintro _ _ ⟨⟩
    obtain ⟨stop, hstopped⟩ := hfails.mpr ⟨_, by simp [hall, fiveFields], _, htier⟩
    obtain ⟨before, f, after, source, hsplit, -, ⟨⟨thresholds, labels, hbucket⟩, hwhy⟩, rfl⟩ := hstop stop hstopped
    rw [hstopped]
    have hf : f ∈ fiveFields := hall ▸ hsplit ▸ List.mem_append_right _ List.mem_cons_self
    simp only [fiveFields, List.mem_cons, List.not_mem_nil, or_false] at hf
    rcases hf with rfl | rfl | rfl | rfl | rfl
    · cases hbucket
    · cases hbucket
      simp [fiveFields, idField] at hwhy
    · cases hbucket
    · cases hbucket
      simp [fiveFields, idField] at hwhy
    · cases hbucket
      rfl

end Engine

end SeededRows
