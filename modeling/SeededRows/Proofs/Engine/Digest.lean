/-
  SeededRows.Proofs.Engine.Digest

  What an engine makes of a batch when all its aggregators sum rows. A spec is good when its row
  can be drawn and every aggregator can map it, and whether it is depends on nothing that the
  engine did before. A batch of good specs is digested: each aggregator gives an accumulator of
  the drawn rows. A batch with any other spec stops the engine.
-/
import SeededRows.Engine
import SeededRows.Proofs.Aggregator.Summing
import SeededRows.Proofs.Engine.Copies
import SeededRows.RowIds.Batch

namespace SeededRows

variable {σ : Type} {order : FieldOrder} {fields : List String} {entropy : Entropy}
  {Ss : List (Summer σ)}

/-! ## Rows -/

theorem drawFields_id {names : List String} {source : Random.Source} {row row' : Row}
    (h : drawFields order names source row = .ok row') : row'.id = row.id := by
  induction names generalizing source row with
  | nil =>
    cases h
    rfl
  | cons name rest ih =>
    rw [drawFields] at h
    split at h
    · cases h
    · split at h
      · exact (ih h).trans rfl
      · cases h

/-- Draws the row of a spec. -/
def drawRow (order : FieldOrder) (fields : List String) (entropy : Entropy) (spec : RowSpec) :
    Except Stop Row :=
  drawFields order fields (spec.source entropy) (.empty spec.id)

/-- The row of a spec; one that cannot be drawn is empty. -/
def rowOf (order : FieldOrder) (fields : List String) (entropy : Entropy) (spec : RowSpec) : Row :=
  match drawRow order fields entropy spec with
  | .ok row => row
  | .error _ => .empty spec.id

/-- A spec whose row can be drawn and that every aggregator can map. -/
structure Good (order : FieldOrder) (fields : List String) (entropy : Entropy) (Ss : List (Summer σ))
    (spec : RowSpec) : Prop where
  drawn : drawRow order fields entropy spec = .ok (rowOf order fields entropy spec)
  maps : ∀ S ∈ Ss, S.summing.Maps (rowOf order fields entropy spec)

theorem rowOf_id (spec : RowSpec) : (rowOf order fields entropy spec).id = spec.id := by
  rw [rowOf]
  split
  · rename_i row hrow
    exact drawFields_id hrow
  · rfl

theorem RowSpec.source_of_seed {spec : RowSpec} (h : spec.seed ≠ none) (entropy entropy' : Entropy) :
    spec.source entropy = spec.source entropy' := by
  rw [source, source]
  cases hs : spec.seed with
  | none => exact absurd hs h
  | some seed => rfl

/-- A row with a seed is drawn from that seed alone. -/
theorem drawRow_of_seed {spec : RowSpec} (h : spec.seed ≠ none) (entropy entropy' : Entropy) :
    drawRow order fields entropy spec = drawRow order fields entropy' spec := by
  rw [drawRow, drawRow, RowSpec.source_of_seed h entropy entropy']

theorem rowOf_of_seed {spec : RowSpec} (h : spec.seed ≠ none) (entropy entropy' : Entropy) :
    rowOf order fields entropy spec = rowOf order fields entropy' spec := by
  rw [rowOf, rowOf, drawRow_of_seed h entropy entropy']

theorem Good.of_seed {spec : RowSpec} (h : spec.seed ≠ none) (entropy' : Entropy)
    (hgood : Good order fields entropy Ss spec) : Good order fields entropy' Ss spec := by
  refine ⟨?_, ?_⟩
  · rw [drawRow_of_seed h entropy' entropy, rowOf_of_seed h entropy' entropy]
    exact hgood.drawn
  · rw [rowOf_of_seed h entropy' entropy]
    exact hgood.maps

/-- Specs whose rows can be summed: no id comes twice, and they can be counted. -/
def Countable (specs : List RowSpec) : Prop :=
  (specs.map RowSpec.id).Nodup ∧ specs.length < UInt64.size

theorem Countable.summable {specs : List RowSpec} (h : Countable specs) :
    Summable (specs.map (rowOf order fields entropy)) := by
  refine ⟨?_, by rw [List.length_map]; exact h.2⟩
  rw [List.map_map]
  exact (List.map_congr_left fun spec _ => (rowOf_id spec).symm) ▸ h.1

theorem Countable.sublist {specs more : List RowSpec} (h : Countable more)
    (hsub : specs.Sublist more) : Countable specs :=
  ⟨h.1.sublist (hsub.map _), Nat.lt_of_le_of_lt hsub.length_le h.2⟩

/-! ## Batches -/

/-- The rows of a batch. -/
def rowsOf (order : FieldOrder) (fields : List String) (entropy : Entropy) (b : Batch) : List Row :=
  b.rows.map (rowOf order fields entropy)

/-- The rows of some batches, batch by batch, are the rows of all their specs. -/
theorem flatten_rowsOf (bs : List Batch) : (bs.map (rowsOf order fields entropy)).flatten =
    (bs.flatMap Batch.rows).map (rowOf order fields entropy) := by
  rw [List.map_flatMap, List.flatMap_def]
  rfl

/-- Every aggregator has an accumulator of some rows. -/
def Digests (Ss : List (Summer σ)) (rows : List Row) : List Accumulator → Prop :=
  List.Forall₂ (fun S acc => S.Accumulates rows acc) Ss

/-- Every copy is one of its aggregator and set up. -/
def ReadyCopies (Ss : List (Summer σ)) : List (Copy σ) → Prop := List.Forall₂ Summer.ReadyCopy Ss

/-- Copies of aggregators, perhaps not set up. -/
def CopiesOf (Ss : List (Summer σ)) : List (Copy σ) → Prop := List.Forall₂ Summer.IsOf Ss

theorem ReadyCopies.copiesOf {copies : List (Copy σ)} (h : ReadyCopies Ss copies) :
    CopiesOf Ss copies := List.Forall₂.imp (fun _ _ hready => hready.isOf) h

theorem ReadyCopies.mapReduce_ok {copies : List (Copy σ)} (h : ReadyCopies Ss copies)
    {rows : List Row} (hne : rows ≠ []) (hsum : Summable rows)
    (hmaps : ∀ S ∈ Ss, ∀ row ∈ rows, S.summing.Maps row) :
    ∃ results copies', Copies.mapReduce rows copies = (.ok results, copies') ∧
      Digests Ss rows results ∧ ReadyCopies Ss copies' := by
  induction h with
  | nil => exact ⟨[], [], rfl, .nil, .nil⟩
  | @cons S c Ss copies hc _ ih =>
    obtain ⟨acc, c', hmap, hacc, hc'⟩ := hc.mapReduce_ok hne (hmaps S List.mem_cons_self) hsum
    obtain ⟨results, copies', hrest, hresults, hcopies'⟩ :=
      ih fun S' hS' => hmaps S' (List.mem_cons_of_mem S hS')
    refine ⟨acc :: results, c' :: copies', ?_, .cons hacc hresults, .cons hc' hcopies'⟩
    rw [Copies.mapReduce, hmap]
    dsimp only
    rw [hrest]
    rfl

theorem ReadyCopies.mapReduce_error {copies : List (Copy σ)} (h : ReadyCopies Ss copies)
    {rows : List Row} (hne : rows ≠ []) (hsum : Summable rows)
    (hmaps : ¬ ∀ S ∈ Ss, ∀ row ∈ rows, S.summing.Maps row) :
    ∃ stop copies', Copies.mapReduce rows copies = (.error stop, copies') := by
  induction h with
  | nil => exact absurd (fun S hS => nomatch hS) hmaps
  | @cons S c Ss copies hc hcopies ih =>
    by_cases hS : ∀ row ∈ rows, S.summing.Maps row
    · -- then it is one of the other copies that stops
      obtain ⟨acc, c', hmap, -⟩ := hc.mapReduce_ok hne hS hsum
      have hrest : ¬ ∀ S ∈ Ss, ∀ row ∈ rows, S.summing.Maps row := by
        intro hall
        refine hmaps fun S' hS' => ?_
        rcases List.mem_cons.mp hS' with rfl | hS'
        · exact hS
        · exact hall S' hS'
      obtain ⟨stop, copies', hstop⟩ := ih hrest
      refine ⟨stop, c' :: copies', ?_⟩
      rw [Copies.mapReduce, hmap]
      dsimp only
      rw [hstop]
      rfl
    · obtain ⟨stop, c', hmap⟩ := hc.mapReduce_error hS
      refine ⟨stop, c' :: copies, ?_⟩
      rw [Copies.mapReduce, hmap]

/-! ## Engines -/

namespace Engine

/-- An engine that draws these fields of an order. -/
structure Draws (order : FieldOrder) (fields : List String) (engine : Engine σ) : Prop where
  order : engine.order = order
  fields : engine.fields = fields

theorem Draws.generateRow {engine : Engine σ} (h : engine.Draws order fields) (spec : RowSpec) :
    engine.generateRow entropy spec = drawRow order fields entropy spec := by
  rw [Engine.generateRow, h.order, h.fields, drawRow]

/-- Rows that an engine draws are those of their specs. -/
theorem Draws.generateRows_eq {engine : Engine σ} (h : engine.Draws order fields)
    {cancelled : Nat → Bool} {place : Nat} {specs : List RowSpec} {rows : List Row}
    (hrows : engine.generateRows entropy cancelled place specs = .ok rows) :
    rows = specs.map (rowOf order fields entropy) ∧
      ∀ spec ∈ specs, drawRow order fields entropy spec = .ok (rowOf order fields entropy spec) := by
  induction specs generalizing place rows with
  | nil =>
    cases hrows
    exact ⟨rfl, fun spec hspec => nomatch hspec⟩
  | cons spec specs ih =>
    rw [generateRows] at hrows
    split at hrows
    -- a cancellation that was seen, or a row that cannot be drawn, would have stopped it
    · cases hrows
    · split at hrows
      · cases hrows
      · rename_i row hrow
        rw [h.generateRow] at hrow
        have hrowOf : rowOf order fields entropy spec = row := by rw [rowOf, hrow]
        cases hrest : engine.generateRows entropy cancelled (place + 1) specs with
        | error halt =>
          rw [hrest] at hrows
          cases hrows
        | ok rest =>
          rw [hrest] at hrows
          cases hrows
          obtain ⟨rfl, hdrawn⟩ := ih hrest
          refine ⟨by rw [List.map_cons, hrowOf], ?_⟩
          intro spec' hspec'
          rcases List.mem_cons.mp hspec' with rfl | hspec'
          · rw [hrow, hrowOf]
          · exact hdrawn spec' hspec'

/-- What stops an engine in drawing rows is a spec whose row cannot be drawn. -/
theorem Draws.generateRows_stop {engine : Engine σ} (h : engine.Draws order fields)
    {cancelled : Nat → Bool} {place : Nat} {specs : List RowSpec} {s : Stop}
    (hrows : engine.generateRows entropy cancelled place specs = .error (.stop s)) :
    ∃ spec ∈ specs, drawRow order fields entropy spec = .error s := by
  induction specs generalizing place with
  | nil => cases hrows
  | cons spec specs ih =>
    rw [generateRows] at hrows
    split at hrows
    · cases hrows
    · split at hrows
      · rename_i s' hrow
        cases hrows
        exact ⟨spec, List.mem_cons_self, (h.generateRow spec).symm.trans hrow⟩
      · cases hrest : engine.generateRows entropy cancelled (place + 1) specs with
        | error halt =>
          rw [hrest] at hrows
          cases hrows
          obtain ⟨spec', hspec', hstop⟩ := ih hrest
          exact ⟨spec', List.mem_cons_of_mem spec hspec', hstop⟩
        | ok rest =>
          rw [hrest] at hrows
          cases hrows

/-- An engine that draws the fields of an order for aggregators that sum rows. -/
structure Digesting (order : FieldOrder) (fields : List String) (Ss : List (Summer σ))
    (engine : Engine σ) : Prop where
  order : engine.order = order
  fields : engine.fields = fields
  copies : ReadyCopies Ss engine.copies

theorem Digesting.draws {engine : Engine σ} (h : engine.Digesting order fields Ss) :
    engine.Draws order fields := ⟨h.order, h.fields⟩

/-- An engine draws the rows of all specs that can be drawn, unless it sees a cancellation. -/
theorem Digesting.generateRows_ok {engine : Engine σ} (h : engine.Digesting order fields Ss)
    {cancelled : Nat → Bool} (hseen : ∀ i, cancelled i = false) {specs : List RowSpec}
    (hdrawn : ∀ spec ∈ specs,
      drawRow order fields entropy spec = .ok (rowOf order fields entropy spec)) (place : Nat) :
    engine.generateRows entropy cancelled place specs =
      .ok (specs.map (rowOf order fields entropy)) := by
  induction specs generalizing place with
  | nil => rfl
  | cons spec specs ih =>
    rw [generateRows, hseen, if_neg Bool.false_ne_true, h.draws.generateRow,
      hdrawn spec List.mem_cons_self]
    dsimp only
    rw [ih (fun s hs => hdrawn s (List.mem_cons_of_mem spec hs))]
    rfl

/-- A batch that an engine worked through had good specs only, and it was digested. -/
theorem Digesting.of_process {engine engine' : Engine σ} (h : engine.Digesting order fields Ss)
    {cancelled : Nat → Bool} {specs : List RowSpec} (hne : specs ≠ []) (hcount : Countable specs)
    {results : List Accumulator}
    (hp : engine.process entropy cancelled specs = (.ok results, engine')) :
    (∀ spec ∈ specs, Good order fields entropy Ss spec) ∧
      Digests Ss (specs.map (rowOf order fields entropy)) results ∧
      engine'.Digesting order fields Ss := by
  rw [process] at hp
  split at hp
  · cases hp
  · -- all rows were drawn, so it is left to the aggregators
    rename_i rows hrows
    obtain ⟨rfl, hdrawn⟩ := h.draws.generateRows_eq hrows
    have hne' : specs.map (rowOf order fields entropy) ≠ [] := by simpa using hne
    by_cases hmaps : ∀ S ∈ Ss, ∀ row ∈ specs.map (rowOf order fields entropy), S.summing.Maps row
    · obtain ⟨results', copies', hmap, hresults, hcopies⟩ :=
        h.copies.mapReduce_ok hne' hcount.summable hmaps
      rw [hmap] at hp
      cases hp
      refine ⟨?_, hresults, ⟨h.order, h.fields, hcopies⟩⟩
      exact fun spec hspec =>
        ⟨hdrawn spec hspec, fun S hS => hmaps S hS _ (List.mem_map_of_mem hspec)⟩
    · obtain ⟨stop, copies', hmap⟩ := h.copies.mapReduce_error hne' hcount.summable hmaps
      rw [hmap] at hp
      cases hp

/-- A batch of good specs is worked through. -/
theorem Digesting.process_ok {engine : Engine σ} (h : engine.Digesting order fields Ss)
    {cancelled : Nat → Bool} (hseen : ∀ i, cancelled i = false) {specs : List RowSpec}
    (hne : specs ≠ []) (hcount : Countable specs)
    (hgood : ∀ spec ∈ specs, Good order fields entropy Ss spec) :
    ∃ results engine', engine.process entropy cancelled specs = (.ok results, engine') := by
  have hrows := h.generateRows_ok hseen (fun spec hspec => (hgood spec hspec).drawn) 0
  have hmaps : ∀ S ∈ Ss, ∀ row ∈ specs.map (rowOf order fields entropy), S.summing.Maps row := by
    intro S hS row hrow
    obtain ⟨spec, hspec, rfl⟩ := List.mem_map.mp hrow
    exact (hgood spec hspec).maps S hS
  obtain ⟨results, copies', hmap, -⟩ :=
    h.copies.mapReduce_ok (by simpa using hne) hcount.summable hmaps
  refine ⟨results, { engine with copies := copies' }, ?_⟩
  rw [process, hrows]
  dsimp only
  rw [hmap]
  rfl

end Engine

/-! ## Beginning and end -/

theorem CopiesOf.clones {copies : List (Copy σ)} (h : CopiesOf Ss copies) :
    CopiesOf Ss (copies.map Copy.clone) := by
  induction h with
  | nil => exact .nil
  | cons hc _ ih => exact .cons hc.clone ih

/-- Whether copies can be set up is a matter of their aggregators. -/
theorem CopiesOf.starts {copies others : List (Copy σ)} (h : CopiesOf Ss copies)
    (h' : CopiesOf Ss others) (hstarts : ∀ c ∈ others, c.clone.start.1 = .ok ()) :
    ∀ c ∈ copies, c.start.1 = .ok () := by
  induction h generalizing others with
  | nil => exact fun c hc => nomatch hc
  | @cons S c Ss copies hc _ ih =>
    cases h' with
    | @cons _ c' _ others hc' hothers =>
      intro d hd
      rcases List.mem_cons.mp hd with rfl | hd
      · rw [hc.start_free hc'.clone]
        exact hstarts c' List.mem_cons_self
      · exact ih hothers (fun c hc => hstarts c (List.mem_cons_of_mem _ hc)) d hd

theorem CopiesOf.start {before copies : List (Copy σ)} {Ss₀ : List (Summer σ)}
    (hbefore : ReadyCopies Ss₀ before) (h : CopiesOf Ss copies)
    (hstarts : ∀ c ∈ copies, c.start.1 = .ok ()) :
    ∃ copies', Copies.start before copies = (.ok (), copies') ∧ ReadyCopies (Ss₀ ++ Ss) copies' := by
  induction h generalizing Ss₀ before with
  | nil => exact ⟨before, rfl, by rwa [List.append_nil]⟩
  | @cons S c Ss copies hc _ ih =>
    obtain ⟨c', hstart⟩ : ∃ c', c.start = (.ok (), c') :=
      ⟨c.start.2, Prod.ext (hstarts c List.mem_cons_self) rfl⟩
    -- the copies that are set up already stand before those that are not
    have hbefore' : ReadyCopies (Ss₀ ++ [S]) (before ++ [c']) :=
      List.rel_append hbefore (.cons (hc.start hstart) .nil)
    obtain ⟨copies', hrest, hready⟩ :=
      ih hbefore' fun d hd => hstarts d (List.mem_cons_of_mem c hd)
    refine ⟨copies', ?_, by rwa [List.append_assoc] at hready⟩
    rw [Copies.start, hstart]
    exact hrest

theorem CopiesOf.finish {copies : List (Copy σ)} (h : CopiesOf Ss copies) :
    (Copies.finish copies none).1 = .ok () := by
  induction h with
  | nil => rfl
  | @cons S c Ss copies hc _ ih =>
    obtain ⟨c', hdone⟩ : ∃ c', c.done = (.ok (), c') := ⟨c.done.2, Prod.ext hc.done rfl⟩
    rw [Copies.finish, hdone]
    exact ih

/-- Copies of aggregators that read the same fields have the same fields drawn. -/
theorem selectFields_congr {copies others : List (Copy σ)}
    (h : copies.map (·.aggregator.fieldsNeeded) = others.map (·.aggregator.fieldsNeeded)) :
    selectFields order copies = selectFields order others := by
  have hneeded : neededFields copies = neededFields others := by
    rw [neededFields, neededFields, List.flatMap_def, List.flatMap_def, h]
  rw [selectFields, selectFields, hneeded]

/-- The fields to draw are a matter of the aggregators. -/
theorem CopiesOf.selectFields {copies others : List (Copy σ)} (h : CopiesOf Ss copies)
    (h' : CopiesOf Ss others) : selectFields order copies = selectFields order others := by
  apply selectFields_congr
  induction h generalizing others with
  | nil =>
    cases h'
    rfl
  | cons hc _ ih =>
    cases h' with
    | cons hc' hrest => rw [List.map_cons, List.map_cons, ih hrest, hc, hc']

namespace Engine

/-- An engine can be made of copies that can be set up, and it digests batches. -/
theorem start_digesting {configured others : List (Copy σ)} (h : CopiesOf Ss configured)
    (h' : CopiesOf Ss others) (hfields : selectFields order others = .ok fields)
    (hstarts : ∀ c ∈ others, c.clone.start.1 = .ok ()) :
    ∃ engine copies, start order configured = (.ok engine, copies) ∧
      engine.Digesting order fields Ss := by
  have hclones := h.clones
  obtain ⟨copies, hstart, hready⟩ :=
    hclones.start .nil (hclones.starts h' hstarts)
  refine ⟨⟨order, fields, copies⟩, copies, ?_, ⟨rfl, rfl, hready⟩⟩
  rw [start, hclones.selectFields h', hfields]
  dsimp only
  rw [hstart]

theorem Digesting.done {engine : Engine σ} (h : engine.Digesting order fields Ss) :
    engine.done.1 = .ok () :=
  h.copies.copiesOf.finish

end Engine

end SeededRows
