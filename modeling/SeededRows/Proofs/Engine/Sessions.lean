/-
  SeededRows.Proofs.Engine.Sessions

  Engines that were made, worked through some batches and were torn down, with nothing that stopped
  them on the way. Each of their copies was set up, fed the rows of these batches, one batch after the
  other, and torn down; so it is known how often each of its hooks was called.
-/
import Mathlib.Algebra.GroupWithZero.Nat
import SeededRows.Proofs.Engine.CallOrder
import SeededRows.Proofs.Engine.Digest
import SeededRows.Proofs.Engine.Replay

namespace SeededRows

variable {σ : Type}

/-! ## One copy -/

/-- The copies that come out of a given one when it is cloned and set up, and the clone is then fed
groups of rows, the latest first. -/
inductive Copy.Served (given : Copy σ) : List (List Row) → Copy σ → Prop
  | made {c : Copy σ} (start : given.clone.start = (.ok (), c)) : Served given [] c
  | fed {c c' : Copy σ} {groups : List (List Row)} {rows : List Row} {acc : Accumulator}
      (before : Served given groups c) (mapReduce : c.mapReduce rows = (.ok acc, c')) :
      Served given (rows :: groups) c'

/-- The copies that were torn down after that. -/
def Copy.Retired (given : Copy σ) (groups : List (List Row)) (c : Copy σ) : Prop :=
  ∃ served, Served given groups served ∧ served.done = (.ok (), c)

namespace Copy

variable {given c : Copy σ} {groups : List (List Row)}

theorem Served.aggregator (h : Served given groups c) : c.aggregator = given.aggregator := by
  induction h with
  | made start => exact (of_run start).2
  | fed _ mapReduce ih => exact (of_run mapReduce).2.trans ih

/-- Each row of a group was mapped, and all of its accumulators but one were folded into another. -/
theorem Served.counts (h : Served given groups c) :
    c.count .start = 1 ∧ c.count .done = 0 ∧ c.count .map = groups.flatten.length ∧
      c.count .reduce + groups.length = groups.flatten.length := by
  induction h with
  | made start =>
    simp only [count, calls_of_start start]
    exact ⟨rfl, rfl, rfl, rfl⟩
  | @fed c c' groups rows acc before mapReduce ih =>
    obtain ⟨hne, hcalls⟩ := calls_of_mapReduce mapReduce
    have hrows : 0 < rows.length := List.length_pos_iff.mpr hne
    have hcount (stage : Stage) : c'.count stage =
        (if .reduce = stage then rows.length - 1 else 0) + ((if .map = stage then rows.length else 0) +
          c.count stage) := by
      simp only [count, hcalls, List.countP_append, Call.count_returned]
    obtain ⟨hstart, hdone, hmap, hreduce⟩ := ih
    refine ⟨?_, ?_, ?_, ?_⟩
    · simpa [hcount] using hstart
    · simpa [hcount] using hdone
    · simp [hcount, hmap]
    · simp only [hcount, reduceCtorEq, if_true, if_false, List.length_cons, List.flatten_cons,
        List.length_append]
      omega

theorem Retired.counts (h : Retired given groups c) :
    c.count .start = 1 ∧ c.count .done = 1 ∧ c.count .map = groups.flatten.length ∧
      c.count .reduce + groups.length = groups.flatten.length := by
  obtain ⟨served, hserved, hdone⟩ := h
  have hcount (stage : Stage) : c.count stage = served.count stage + if .done = stage then 1 else 0 := by
    simp only [count, calls_of_done hdone, List.countP_cons, beq_iff_eq]
  obtain ⟨h1, h2, h3, h4⟩ := hserved.counts
  refine ⟨?_, ?_, ?_, ?_⟩
  · simp [hcount, h1]
  · simp [hcount, h2]
  · simp [hcount, h3]
  · simp [hcount, h4]

/-- The last call was a teardown, and it returned. -/
theorem Retired.last_call (h : Retired given groups c) : c.calls.head? = some ⟨.done, none⟩ := by
  obtain ⟨served, -, hdone⟩ := h
  rw [calls_of_done hdone]
  rfl

end Copy

/-! ## Copies in a row -/

namespace Copies

variable {copies copies' : List (Copy σ)}

/-- Copies that can all be torn down. -/
theorem finish_eq_ok {first : Option Fault} (h : finish copies first = (.ok (), copies')) :
    first = none ∧ List.Forall₂ (fun c c' => c.done = (.ok (), c')) copies copies' := by
  induction copies generalizing first copies' with
  | nil =>
    cases first with
    | none =>
      cases h
      exact ⟨rfl, .nil⟩
    | some f => cases h
  | cons c rest ih =>
    rw [finish] at h
    rcases hdone : c.done with ⟨(f | crash) | ⟨⟩, d⟩
    · -- a fault is reported in the end
      rw [hdone] at h
      rcases hrest : finish rest (some (first.getD f)) with ⟨r, rest'⟩
      simp only [hrest, Prod.mk.injEq] at h
      rw [h.1] at hrest
      cases (ih hrest).1
    · rw [hdone] at h
      cases h
    · rw [hdone] at h
      rcases hrest : finish rest first with ⟨r, rest'⟩
      simp only [hrest, Prod.mk.injEq] at h
      obtain ⟨rfl, rfl⟩ := h
      obtain ⟨hnone, hall⟩ := ih hrest
      exact ⟨hnone, .cons hdone hall⟩

/-- Copies that can all be fed. -/
theorem mapReduce_eq_ok {rows : List Row} {results : List Accumulator}
    (h : mapReduce rows copies = (.ok results, copies')) :
    List.Forall₂ (fun c c' => ∃ acc, c.mapReduce rows = (.ok acc, c')) copies copies' := by
  induction copies generalizing results copies' with
  | nil =>
    cases h
    exact .nil
  | cons c rest ih =>
    rw [mapReduce] at h
    rcases hmap : c.mapReduce rows with ⟨s | acc, d⟩
    · rw [hmap] at h
      cases h
    · rw [hmap] at h
      rcases hrest : mapReduce rows rest with ⟨s | more, rest'⟩
      · simp [hrest, Except.map] at h
      · simp only [hrest, Prod.mk.injEq] at h
        obtain ⟨-, rfl⟩ := h
        exact .cons ⟨acc, hmap⟩ (ih hrest)

end Copies

/-! ## Engines -/

/-- A batch with what was made of it. -/
structure WorkedBatch where
  batch : Batch
  results : List Accumulator

namespace Engine

/-- The engines that come out of one that was made of given copies and worked through batches, with
what it made of them, the latest first. -/
inductive Session (order : FieldOrder) (given : List (Copy σ)) (entropy : Entropy) :
    List WorkedBatch → Engine σ → Prop
  | made {engine : Engine σ} {copies : List (Copy σ)}
      (start : Engine.start order given = (.ok engine, copies)) : Session order given entropy [] engine
  | worked {share : List WorkedBatch} {engine engine' : Engine σ} {b : Batch} {results : List Accumulator}
      {cancelled : Nat → Bool} (before : Session order given entropy share engine)
      (process : engine.process entropy cancelled b.rows = (.ok results, engine')) :
      Session order given entropy (⟨b, results⟩ :: share) engine'

variable {order : FieldOrder} {given : List (Copy σ)} {entropy : Entropy} {share : List WorkedBatch}
  {engine engine' : Engine σ}

theorem Session.lives (h : Session order given entropy share engine) : engine.Lives order given := by
  induction h with
  | made start => exact .start start
  | @worked share engine engine' b results cancelled _ process ih =>
    have hlives := ih.process entropy cancelled b.rows
    rwa [process] at hlives

/-- The groups of rows that the batches of a share came to. -/
def groupsOf (order : FieldOrder) (fields : List String) (entropy : Entropy) (share : List WorkedBatch) :
    List (List Row) := share.map fun made => rowsOf order fields entropy made.batch

theorem length_flatten_groupsOf (order : FieldOrder) (fields : List String) (entropy : Entropy)
    (share : List WorkedBatch) :
    (groupsOf order fields entropy share).flatten.length = (share.map fun made => made.batch.size).sum := by
  rw [List.length_flatten, groupsOf, List.map_map]
  refine congrArg List.sum (List.map_congr_left fun made _ => ?_)
  exact List.length_map _

/-- What a batch that was worked through did to an engine: it drew the rows of all specs, and fed
them to every copy. -/
theorem Draws.process_eq_ok {fields : List String} (h : engine.Draws order fields)
    {cancelled : Nat → Bool} {specs : List RowSpec} {results : List Accumulator}
    (hprocess : engine.process entropy cancelled specs = (.ok results, engine')) :
    (∀ spec ∈ specs, drawRow order fields entropy spec = .ok (rowOf order fields entropy spec)) ∧
      List.Forall₂ (fun c c' => ∃ acc,
        c.mapReduce (specs.map (rowOf order fields entropy)) = (.ok acc, c'))
        engine.copies engine'.copies := by
  rw [Engine.process] at hprocess
  split at hprocess
  · cases hprocess
  · rename_i rows hrows
    obtain ⟨rfl, hdrawn⟩ := h.generateRows_eq hrows
    rcases hmap : Copies.mapReduce (specs.map (rowOf order fields entropy)) engine.copies with
      ⟨s | more, copies⟩
    · simp [hmap, Except.mapError] at hprocess
    · simp only [hmap, Prod.mk.injEq] at hprocess
      obtain ⟨-, rfl⟩ := hprocess
      exact ⟨hdrawn, Copies.mapReduce_eq_ok hmap⟩

/-- The copies of an engine that was just made. -/
theorem served_of_start {copies : List (Copy σ)} (h : start order given = (.ok engine, copies)) :
    List.Forall₂ (fun c c' => c.Served [] c') given engine.copies := by
  rw [start] at h
  split at h
  · cases h
  · split at h
    · rename_i hs
      cases h
      obtain ⟨rfl, hok⟩ := Copies.start_eq_ok hs
      rw [List.nil_append, List.forall₂_map_right_iff, List.forall₂_map_right_iff,
        List.forall₂_same]
      intro c hc
      have hc' := hok c.clone (List.mem_map_of_mem hc)
      exact .made (Prod.ext hc' rfl)
    · cases h

/-- An engine draws the fields that its given copies have selected. -/
theorem Session.draws {fields : List String} (h : Session order given entropy share engine)
    (hfields : selectFields order given = .ok fields) : engine.Draws order fields := by
  obtain ⟨horder, hselected⟩ := h.lives.selected
  exact ⟨horder, Except.ok.inj (hselected.symm.trans hfields)⟩

/-- Each copy of an engine was fed the rows of all its batches, and all of them could be drawn. -/
theorem Session.served {fields : List String} (h : Session order given entropy share engine)
    (hfields : selectFields order given = .ok fields) :
    (∀ made ∈ share, ∀ spec ∈ made.batch.rows,
        drawRow order fields entropy spec = .ok (rowOf order fields entropy spec)) ∧
      List.Forall₂ (fun c c' => c.Served (groupsOf order fields entropy share) c') given engine.copies := by
  induction h with
  | made start => exact ⟨by simp, served_of_start start⟩
  | @worked share engine engine' b results cancelled before process ih =>
    obtain ⟨hdrawn, hserved⟩ := ih
    obtain ⟨hnew, hfed⟩ := (before.draws hfields).process_eq_ok process
    refine ⟨?_, ?_⟩
    · intro made hmade
      rcases List.mem_cons.mp hmade with rfl | hmade
      · exact hnew
      · exact hdrawn made hmade
    · exact forall₂_comp hserved hfed fun hc ⟨_, hmap⟩ => hc.fed hmap

/-- Each copy of an engine that was torn down after its batches. -/
theorem Session.retired (h : Session order given entropy share engine)
    (hdone : engine.done = (.ok (), engine')) : ∃ fields, selectFields order given = .ok fields ∧
      (∀ made ∈ share, ∀ spec ∈ made.batch.rows,
        drawRow order fields entropy spec = .ok (rowOf order fields entropy spec)) ∧
      List.Forall₂ (fun c c' => c.Retired (groupsOf order fields entropy share) c') given
        engine'.copies := by
  obtain ⟨-, hfields⟩ := h.lives.selected
  obtain ⟨hdrawn, hserved⟩ := h.served hfields
  rw [Engine.done] at hdone
  rcases hfinish : Copies.finish engine.copies none with ⟨r, copies⟩
  rw [hfinish] at hdone
  cases hdone
  obtain ⟨-, hall⟩ := Copies.finish_eq_ok hfinish
  exact ⟨_, hfields, hdrawn, forall₂_comp hserved hall fun hc hd => ⟨_, hc, hd⟩⟩

end Engine

end SeededRows
