/-
  SeededRows.Proofs.Engine.Reductions

  An engine whose copies fare as they may outside. Whatever is done with it, its copies stay copies
  of the same aggregators, and no reduction on them stops; a batch that it works through comes to
  accumulators of its rows. So if something stops it, that is a row that cannot be drawn, or a hook
  that is not a reduction.
-/
import SeededRows.Proofs.Aggregator.Reductions
import SeededRows.Proofs.Engine.Digest

namespace SeededRows

variable {σ : Type} {order : FieldOrder} {fields : List String} {entropy : Entropy}
  {Ss : List (Summer σ)} {aggs : List (Aggregator σ)}

/-! ## Copies that go on -/

/-- What becomes of a copy leaves its aggregator, and breaks no reduction. -/
structure Copy.Continues (c c' : Copy σ) : Prop where
  aggregator : c'.aggregator = c.aggregator
  unbroken : c.Unbroken → c'.Unbroken

theorem Copy.Continues.refl (c : Copy σ) : c.Continues c := ⟨rfl, id⟩

theorem Copy.Continues.trans {c c' c'' : Copy σ} (h : c.Continues c') (h' : c'.Continues c'') :
    c.Continues c'' :=
  ⟨h'.aggregator.trans h.aggregator, fun hc => h'.unbroken (h.unbroken hc)⟩

theorem Copy.continues_start (c : Copy σ) : c.Continues c.start.2 := ⟨rfl, Copy.Unbroken.start⟩

theorem Copy.continues_done (c : Copy σ) : c.Continues c.done.2 := ⟨rfl, Copy.Unbroken.done⟩

namespace Copies

/-- The aggregators of copies. -/
def aggregators (copies : List (Copy σ)) : List (Aggregator σ) := copies.map (·.aggregator)

/-- No reduction on any of the copies stopped. -/
def Unbroken (copies : List (Copy σ)) : Prop := ∀ c ∈ copies, c.Unbroken

/-- Each copy goes on in its place. -/
def Continue (copies copies' : List (Copy σ)) : Prop := List.Forall₂ Copy.Continues copies copies'

variable {copies copies' : List (Copy σ)}

theorem Continue.refl (copies : List (Copy σ)) : Continue copies copies :=
  List.forall₂_same.mpr fun c _ => .refl c

theorem Continue.trans {copies'' : List (Copy σ)} (h : Continue copies copies')
    (h' : Continue copies' copies'') : Continue copies copies'' :=
  forall₂_comp h h' .trans

theorem Continue.aggregators (h : Continue copies copies') :
    aggregators copies' = aggregators copies := by
  induction h with
  | nil => rfl
  | cons hc _ ih => exact congrArg₂ List.cons hc.aggregator ih

theorem Continue.unbroken (h : Continue copies copies') (hcopies : Unbroken copies) :
    Unbroken copies' := by
  induction h with
  | nil => exact hcopies
  | cons hc _ ih =>
    have hrest := ih fun d hd => hcopies d (List.mem_cons_of_mem _ hd)
    intro d hd
    rcases List.mem_cons.mp hd with rfl | hd
    · exact hc.unbroken (hcopies _ List.mem_cons_self)
    · exact hrest d hd

theorem aggregators_clones (copies : List (Copy σ)) :
    aggregators (copies.map Copy.clone) = aggregators copies := by
  rw [aggregators, List.map_map]
  rfl

/-! ## Setup, teardown and batches -/

theorem finish_continue (copies : List (Copy σ)) (first : Option Fault) :
    Continue copies (finish copies first).2 := by
  induction copies generalizing first with
  | nil => cases first <;> exact .nil
  | cons c rest ih =>
    have hc := c.continues_done
    rw [finish]
    rcases hdone : c.done with ⟨(f | crash) | ⟨⟩, c'⟩
    · rw [hdone] at hc
      exact .cons hc (ih _)
    · rw [hdone] at hc
      exact .cons hc (Continue.refl rest)
    · rw [hdone] at hc
      exact .cons hc (ih _)

/-- What is reported of a teardown was reported before, or one of the copies stopped with it. -/
theorem finish_stops {first : Option Fault} {s : Stop} (h : (finish copies first).1 = .error s) :
    (∃ f, first = some f ∧ s = .fault f) ∨ ∃ a ∈ aggregators copies, a.Stops s := by
  induction copies generalizing first with
  | nil =>
    cases first with
    | none => cases h
    | some f =>
      cases h
      exact .inl ⟨f, rfl, rfl⟩
  | cons c rest ih =>
    have hc : ∀ {stop}, c.done.1 = .error stop → c.aggregator.Stops stop := Copy.stops_of_done
    have hlater : (∃ a ∈ aggregators rest, a.Stops s) → ∃ a ∈ aggregators (c :: rest), a.Stops s :=
      fun ⟨a, ha, hstop⟩ => ⟨a, List.mem_cons_of_mem _ ha, hstop⟩
    rw [finish] at h
    rcases hdone : c.done with ⟨(f | crash) | ⟨⟩, c'⟩
    · rw [hdone] at h
      rcases ih h with ⟨f', hf', rfl⟩ | hrest
      · -- the first fault is the one before, if there was one, or that of this copy
        cases first with
        | some f₀ =>
          cases hf'
          exact .inl ⟨f₀, rfl, rfl⟩
        | none =>
          cases hf'
          exact .inr ⟨c.aggregator, List.mem_cons_self, hc (congrArg Prod.fst hdone)⟩
      · exact .inr (hlater hrest)
    · rw [hdone] at h
      cases h
      exact .inr ⟨c.aggregator, List.mem_cons_self, hc (congrArg Prod.fst hdone)⟩
    · rw [hdone] at h
      exact (ih h).imp_right hlater

theorem start_continue (before copies : List (Copy σ)) :
    Continue (before ++ copies) (start before copies).2 := by
  induction copies generalizing before with
  | nil =>
    rw [List.append_nil]
    exact .refl before
  | cons c rest ih =>
    have hc := c.continues_start
    have hlater {c' : Copy σ} (hc' : c.Continues c') : Continue (c :: rest) (c' :: rest) :=
      .cons hc' (Continue.refl rest)
    rw [start]
    rcases hstart : c.start with ⟨(f | crash) | ⟨⟩, c'⟩
    · rw [hstart] at hc
      have hfinish := finish_continue before none
      dsimp only
      split
      · rename_i hf
        rw [hf] at hfinish
        exact List.rel_append hfinish (hlater hc)
      · rename_i hf
        rw [hf] at hfinish
        exact List.rel_append hfinish (hlater hc)
    · rw [hstart] at hc
      exact List.rel_append (Continue.refl before) (hlater hc)
    · rw [hstart] at hc
      have hrest := ih (before ++ [c'])
      rw [List.append_assoc] at hrest
      have hset : Continue (before ++ c :: rest) (before ++ ([c'] ++ rest)) :=
        List.rel_append (Continue.refl before) (hlater hc)
      exact hset.trans hrest

/-- A setup stops with what one of the copies stops with, in its own setup or in a teardown. -/
theorem start_stops {before : List (Copy σ)} {s : Stop} (h : (start before copies).1 = .error s) :
    ∃ a ∈ aggregators (before ++ copies), a.Stops s := by
  induction copies generalizing before with
  | nil => cases h
  | cons c rest ih =>
    have hmem : c.aggregator ∈ aggregators (before ++ c :: rest) :=
      List.mem_map_of_mem (List.mem_append_right before List.mem_cons_self)
    have hc : ∀ {stop}, c.start.1 = .error stop → c.aggregator.Stops stop := Copy.stops_of_start
    rw [start] at h
    rcases hstart : c.start with ⟨(f | crash) | ⟨⟩, c'⟩
    · rw [hstart] at h
      dsimp only at h
      split at h
      · -- the copies before were torn down, and one of them crashed
        rename_i hf
        cases h
        rcases finish_stops (congrArg Prod.fst hf) with ⟨f', hf', -⟩ | ⟨a, ha, hstop⟩
        · cases hf'
        · rw [aggregators, List.map_append]
          exact ⟨a, List.mem_append_left _ ha, hstop⟩
      · cases h
        exact ⟨c.aggregator, hmem, hc (congrArg Prod.fst hstart)⟩
    · rw [hstart] at h
      cases h
      exact ⟨c.aggregator, hmem, hc (congrArg Prod.fst hstart)⟩
    · rw [hstart] at h
      obtain ⟨a, ha, hstop⟩ := ih h
      have haggregator : c'.aggregator = c.aggregator := by
        have hcontinues := c.continues_start
        rw [hstart] at hcontinues
        exact hcontinues.aggregator
      refine ⟨a, ?_, hstop⟩
      rwa [aggregators, List.append_assoc, List.map_append, List.singleton_append, List.map_cons,
        haggregator, ← List.map_cons, ← List.map_append] at ha

/-- Aggregators that fare as they may, but map and reduce rows as others do. -/
def Fit (Ss : List (Summer σ)) (aggs : List (Aggregator σ)) : Prop := List.Forall₂ Summer.Fits Ss aggs

/-- Copies of such aggregators make accumulators of the rows of a batch, or one of them stops at a
call of `map`. -/
theorem mapReduce_cases (h : Fit Ss (aggregators copies)) {rows : List Row} (hne : rows ≠ [])
    (hsum : Summable rows) :
    Continue copies (mapReduce rows copies).2 ∧
      ((∃ results, (mapReduce rows copies).1 = .ok results ∧ Digests Ss rows results ∧
          ∀ S ∈ Ss, ∀ row ∈ rows, S.summing.Maps row) ∨
        ∃ s, (mapReduce rows copies).1 = .error s ∧ ∃ a ∈ aggregators copies, a.Stops s) := by
  induction copies generalizing Ss with
  | nil =>
    cases h
    exact ⟨.nil, .inl ⟨[], rfl, .nil, fun S hS => nomatch hS⟩⟩
  | cons c rest ih =>
    cases h with
    | @cons S _ Ss _ hS hrest =>
      obtain ⟨hcontinue, hcases⟩ := ih hrest
      have hc : c.Continues (c.mapReduce rows).2 := ⟨rfl, hS.unbroken_mapReduce hne hsum⟩
      rw [mapReduce]
      rcases hS.mapReduce hne hsum with ⟨acc, hok, hacc, hmaps⟩ | ⟨stop, herror, hstop⟩
      · have heq : c.mapReduce rows = (.ok acc, (c.mapReduce rows).2) := Prod.ext hok rfl
        rw [heq]
        refine ⟨.cons hc hcontinue, ?_⟩
        rcases hcases with ⟨results, hresults, hdigests, hall⟩ | ⟨s, hs, a, ha, hstop⟩
        · refine .inl ⟨acc :: results, ?_, .cons hacc hdigests, ?_⟩
          · dsimp only
            rw [hresults]
            rfl
          · intro S' hS'
            rcases List.mem_cons.mp hS' with rfl | hS'
            · exact hmaps
            · exact hall S' hS'
        · refine .inr ⟨s, ?_, a, List.mem_cons_of_mem _ ha, hstop⟩
          dsimp only
          rw [hs]
          rfl
      · have heq : c.mapReduce rows = (.error stop, (c.mapReduce rows).2) := Prod.ext herror rfl
        rw [heq]
        exact ⟨.cons hc (Continue.refl rest), .inr ⟨stop, rfl, c.aggregator, List.mem_cons_self, hstop⟩⟩

end Copies

/-! ## Engines -/

/-- Copies that fit have the fields drawn that copies of the aggregators themselves have drawn. -/
theorem Copies.Fit.selectFields {copies others : List (Copy σ)} (h : Copies.Fit Ss (aggregators copies))
    (h' : CopiesOf Ss others) : selectFields order copies = selectFields order others := by
  apply selectFields_congr
  induction h' generalizing copies with
  | nil =>
    cases copies with
    | nil => rfl
    | cons c copies => cases h
  | @cons S d Ss others hd _ ih =>
    cases copies with
    | nil => cases h
    | cons c copies =>
      cases h with
      | cons hc hrest => rw [List.map_cons, List.map_cons, ih hrest, hc.fieldsNeeded, hd]

namespace Engine

/-- Why an engine can stop: it cannot draw the row of a spec, or a hook of one of its aggregators
stops, which is not a reduction. -/
inductive Cause (order : FieldOrder) (fields : List String) (entropy : Entropy)
    (specs : List RowSpec) (aggs : List (Aggregator σ)) (s : Stop) : Prop
  | draw {spec : RowSpec} (among : spec ∈ specs) (stops : drawRow order fields entropy spec = .error s)
  | hook {a : Aggregator σ} (among : a ∈ aggs) (stops : a.Stops s)

theorem Cause.mono {specs more : List RowSpec} {s : Stop} (h : Cause order fields entropy specs aggs s)
    (hsub : ∀ spec ∈ specs, spec ∈ more) : Cause order fields entropy more aggs s := by
  cases h with
  | draw among stops => exact .draw (hsub _ among) stops
  | hook among stops => exact .hook among stops

/-- An engine with copies of some aggregators, no reduction of which has stopped. -/
structure Reducing (order : FieldOrder) (fields : List String) (aggs : List (Aggregator σ))
    (engine : Engine σ) : Prop where
  draws : engine.Draws order fields
  aggregators : Copies.aggregators engine.copies = aggs
  unbroken : Copies.Unbroken engine.copies

/-- An engine whose copies went on. -/
theorem Reducing.continue {engine : Engine σ} (h : engine.Reducing order fields aggs)
    {copies : List (Copy σ)} (hcopies : Copies.Continue engine.copies copies) :
    Reducing order fields aggs { engine with copies } :=
  ⟨⟨h.draws.order, h.draws.fields⟩, hcopies.aggregators.trans h.aggregators,
    hcopies.unbroken h.unbroken⟩

/-- An engine is made of copies that can be set up; else one of them stops. -/
theorem start_cases {configured : List (Copy σ)} (hfields : selectFields order configured = .ok fields) :
    Copies.Unbroken (start order configured).2 ∧
      ((∃ engine, (start order configured).1 = .ok engine ∧
          engine.Reducing order fields (Copies.aggregators configured)) ∨
        ∃ s, (start order configured).1 = .error s ∧
          ∃ a ∈ Copies.aggregators configured, a.Stops s) := by
  have hclones : selectFields order (configured.map Copy.clone) = .ok fields := by
    rw [← hfields]
    apply selectFields_congr
    rw [List.map_map]
    rfl
  have hfresh : Copies.Unbroken (configured.map Copy.clone) := by
    intro c hc
    obtain ⟨d, -, rfl⟩ := List.mem_map.mp hc
    exact Copy.unbroken_of_fresh rfl
  have hcontinue := Copies.start_continue [] (configured.map Copy.clone)
  have hunbroken := hcontinue.unbroken hfresh
  have haggs := hcontinue.aggregators
  have hstops := @Copies.start_stops σ (configured.map Copy.clone) []
  rw [List.nil_append, Copies.aggregators_clones] at haggs hstops
  rw [start, hclones]
  dsimp only
  rcases hstart : Copies.start [] (configured.map Copy.clone) with ⟨s | ⟨⟩, copies⟩
  · rw [hstart] at hunbroken hstops
    exact ⟨hunbroken, .inr ⟨s, rfl, hstops rfl⟩⟩
  · rw [hstart] at hunbroken haggs
    exact ⟨hunbroken, .inl ⟨_, rfl, ⟨rfl, rfl⟩, haggs, hunbroken⟩⟩

/-- What an engine makes of a batch: it stays an engine of its kind, a batch that is worked through
had good specs only and is digested, and what stops it is not a reduction. -/
theorem Reducing.process {engine : Engine σ} (h : engine.Reducing order fields aggs)
    (hfit : Copies.Fit Ss aggs) {specs : List RowSpec} (hne : specs ≠ []) (hcount : Countable specs)
    (entropy : Entropy) (cancelled : Nat → Bool) :
    (engine.process entropy cancelled specs).2.Reducing order fields aggs ∧
      (∀ results, (engine.process entropy cancelled specs).1 = .ok results →
        (∀ spec ∈ specs, Good order fields entropy Ss spec) ∧
          Digests Ss (specs.map (rowOf order fields entropy)) results) ∧
      ∀ s, (engine.process entropy cancelled specs).1 = .error (.stop s) →
        Cause order fields entropy specs aggs s := by
  rw [Engine.process]
  rcases hrows : engine.generateRows entropy cancelled 0 specs with halt | rows
  · refine ⟨h, by simp, ?_⟩
    intro s hs
    cases hs
    obtain ⟨spec, hspec, hstop⟩ := h.draws.generateRows_stop hrows
    exact .draw hspec hstop
  · obtain ⟨rfl, hdrawn⟩ := h.draws.generateRows_eq hrows
    have hne' : specs.map (rowOf order fields entropy) ≠ [] := by simpa using hne
    have hfit' : Copies.Fit Ss (Copies.aggregators engine.copies) := h.aggregators ▸ hfit
    obtain ⟨hcontinue, hcases⟩ := Copies.mapReduce_cases hfit' hne' hcount.summable
    refine ⟨h.continue hcontinue, ?_⟩
    rcases hcases with ⟨results, hresults, hdigests, hmaps⟩ | ⟨s, hs, a, ha, hstop⟩
    · dsimp only
      rw [hresults]
      refine ⟨?_, ?_⟩
      · intro results' hok
        cases hok
        refine ⟨?_, hdigests⟩
        exact fun spec hspec =>
          ⟨hdrawn spec hspec, fun S hS => hmaps S hS _ (List.mem_map_of_mem hspec)⟩
      · intro s hs
        cases hs
    · dsimp only
      rw [hs]
      refine ⟨?_, ?_⟩
      · intro results' hok
        cases hok
      · intro s' hs'
        cases hs'
        exact .hook (h.aggregators ▸ ha) hstop

theorem Reducing.done {engine : Engine σ} (h : engine.Reducing order fields aggs) :
    engine.done.2.Reducing order fields aggs ∧
      ∀ s, engine.done.1 = .error s → ∃ a ∈ aggs, a.Stops s := by
  refine ⟨h.continue (Copies.finish_continue engine.copies none), ?_⟩
  intro s hs
  rcases Copies.finish_stops hs with ⟨f, hf, -⟩ | hstop
  · cases hf
  · rwa [h.aggregators] at hstop

end Engine

end SeededRows
