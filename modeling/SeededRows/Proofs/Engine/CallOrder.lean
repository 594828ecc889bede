/-
  SeededRows.Proofs.Engine.CallOrder

  The order of the calls on a copy of an aggregator: a setup, then work on rows, then a teardown.
  Each of the three can be missing at the end, work and teardown follow only a setup that returned,
  and nothing follows a teardown, whether or not it returned. An engine keeps to this order on all of
  its copies, and feeds rows to none of them before all of them are set up.
-/
import SeededRows.Proofs.Engine.Lifecycle

namespace SeededRows

variable {σ : Type}

/-! ## Calls on one copy -/

namespace Call

/-- The calls on a copy that was set up and not torn down, the latest first. -/
inductive Going : List Call → Prop
  | setUp : Going [⟨.start, none⟩]
  | work {call : Call} {calls : List Call} (stage : call.stage = .map ∨ call.stage = .reduce)
      (before : Going calls) : Going (call :: calls)

/-- The calls on a copy in their order, the latest first. -/
inductive InOrder : List Call → Prop
  | untouched : InOrder []
  | cannotSetUp (stop : Stop) : InOrder [⟨.start, some stop⟩]
  | going {calls : List Call} (before : Going calls) : InOrder calls
  | torn {calls : List Call} (stop? : Option Stop) (before : Going calls) :
      InOrder (⟨.done, stop?⟩ :: calls)

variable {calls more : List Call}

theorem Going.works (h : Going calls) (hmore : ∀ call ∈ more, call.stage = .map ∨ call.stage = .reduce) :
    Going (more ++ calls) := by
  induction more with
  | nil => exact h
  | cons call more ih =>
    have hcall := hmore call List.mem_cons_self
    have hrest := ih fun call' hcall' => hmore call' (List.mem_cons_of_mem call hcall')
    exact .work hcall hrest

theorem Going.set_up (h : Going calls) : ⟨.start, none⟩ ∈ calls := by
  induction h with
  | setUp => exact List.mem_cons_self
  | work _ _ ih => exact List.mem_cons_of_mem _ ih

theorem InOrder.setUp (stop? : Option Stop) : InOrder [⟨.start, stop?⟩] := by
  cases stop? with
  | none => exact .going .setUp
  | some stop => exact .cannotSetUp stop

end Call

namespace Copy

variable {c : Copy σ}

/-- The copy has seen rows. -/
def HasWorked (c : Copy σ) : Prop := ∃ call ∈ c.calls, call.stage = .map ∨ call.stage = .reduce

theorem calls_start (c : Copy σ) : c.start.2.calls = ⟨.start, Stop.of? c.start.1⟩ :: c.calls := rfl

theorem calls_done (c : Copy σ) : c.done.2.calls = ⟨.done, Stop.of? c.done.1⟩ :: c.calls := rfl

theorem going_start (h : c.calls = []) (hok : c.start.1 = .ok ()) : Call.Going c.start.2.calls := by
  rw [calls_start, h, hok]
  exact .setUp

theorem inOrder_start (h : c.calls = []) : Call.InOrder c.start.2.calls := by
  rw [calls_start, h]
  exact .setUp _

theorem inOrder_done (h : Call.Going c.calls) : Call.InOrder c.done.2.calls := by
  rw [calls_done]
  exact .torn _ h

theorem going_mapReduce (h : Call.Going c.calls) (rows : List Row) :
    Call.Going (c.mapReduce rows).2.calls := by
  obtain ⟨more, hcalls, hstages, -⟩ := c.aggregator.mapReduceAny_notes rows c.toTracked
  have hcalls' : (c.mapReduce rows).2.calls = more ++ c.calls := hcalls
  rw [hcalls']
  exact h.works hstages

end Copy

/-! ## Copies in a row -/

namespace Copies

variable {copies : List (Copy σ)}

/-- All copies were set up and none was torn down. -/
def Going (copies : List (Copy σ)) : Prop := ∀ c ∈ copies, Call.Going c.calls

/-- The calls on each copy are in order, and no copy has seen rows unless all were set up. -/
structure InOrder (copies : List (Copy σ)) : Prop where
  calls : ∀ c ∈ copies, Call.InOrder c.calls
  together : ∀ c ∈ copies, c.HasWorked → ∀ other ∈ copies, other.IsSetUp

/-- Each copy that a teardown leaves was torn down, or the teardown ended before it. -/
theorem mem_finish {first : Option Fault} {c' : Copy σ} (h : c' ∈ (finish copies first).2) :
    ∃ c ∈ copies, c' = c ∨ c' = c.done.2 := by
  induction copies generalizing first with
  | nil => cases first <;> cases h
  | cons c rest ih =>
    have hthis (hc' : c' = c.done.2) : ∃ d ∈ c :: rest, c' = d ∨ c' = d.done.2 :=
      ⟨c, List.mem_cons_self, .inr hc'⟩
    have hlater : (∃ d ∈ rest, c' = d ∨ c' = d.done.2) → ∃ d ∈ c :: rest, c' = d ∨ c' = d.done.2 :=
      fun ⟨d, hd, hcases⟩ => ⟨d, List.mem_cons_of_mem c hd, hcases⟩
    rw [finish] at h
    rcases hdone : c.done with ⟨(f | crash) | ⟨⟩, d⟩
    · rw [hdone] at h hthis
      rcases List.mem_cons.mp h with hc' | hc'
      · exact hthis hc'
      · exact hlater (ih hc')
    · rw [hdone] at h hthis
      rcases List.mem_cons.mp h with hc' | hc'
      · exact hthis hc'
      · exact hlater ⟨c', hc', .inl rfl⟩
    · rw [hdone] at h hthis
      rcases List.mem_cons.mp h with hc' | hc'
      · exact hthis hc'
      · exact hlater (ih hc')

/-- What becomes of a copy when copies are set up: nothing, or it is set up, and perhaps torn down
then because a later one cannot be set up. -/
inductive SetUp (c : Copy σ) : Copy σ → Prop
  | untouched : SetUp c c
  | tried : SetUp c c.start.2
  | undone (returned : c.start.1 = .ok ()) : SetUp c c.start.2.done.2

theorem mem_start {before : List (Copy σ)} {c' : Copy σ} (h : c' ∈ (start before copies).2) :
    (∃ c ∈ before, c' = c ∨ c' = c.done.2) ∨ ∃ c ∈ copies, SetUp c c' := by
  induction copies generalizing before with
  | nil => exact .inl ⟨c', h, .inl rfl⟩
  | cons c rest ih =>
    have hlater : c' ∈ rest → ∃ d ∈ c :: rest, SetUp d c' := fun hc' =>
      ⟨c', List.mem_cons_of_mem c hc', .untouched⟩
    have hthis : c' = c.start.2 → ∃ d ∈ c :: rest, SetUp d c' := fun hc' =>
      ⟨c, List.mem_cons_self, hc' ▸ .tried⟩
    rw [start] at h
    rcases hstart : c.start with ⟨(f | crash) | ⟨⟩, d⟩
    · -- a fault: the copies before are torn down
      rw [hstart] at h hthis
      have hsplit : c' ∈ (finish before none).2 ++ d :: rest := by
        rcases hf : finish before none with ⟨(f' | crash) | ⟨⟩, before'⟩
        all_goals simpa only [hf] using h
      rcases List.mem_append.mp hsplit with hc' | hc'
      · exact .inl (mem_finish hc')
      · exact .inr ((List.mem_cons.mp hc').elim hthis hlater)
    · rw [hstart] at h hthis
      rcases List.mem_append.mp h with hc' | hc'
      · exact .inl ⟨c', hc', .inl rfl⟩
      · exact .inr ((List.mem_cons.mp hc').elim hthis hlater)
    · -- it was set up, and is one of the copies before from now on
      rw [hstart] at h hthis
      have hok : c.start.1 = .ok () := by rw [hstart]
      have hd : d = c.start.2 := by rw [hstart]
      rcases ih h with ⟨e, he, hcases⟩ | ⟨e, he, hset⟩
      · rcases List.mem_append.mp he with he | he
        · exact .inl ⟨e, he, hcases⟩
        · right
          rw [List.mem_singleton.mp he, hd] at hcases
          rcases hcases with rfl | rfl
          · exact ⟨c, List.mem_cons_self, .tried⟩
          · exact ⟨c, List.mem_cons_self, .undone hok⟩
      · exact .inr ⟨e, List.mem_cons_of_mem c he, hset⟩

/-- Copies that could all be set up. -/
theorem start_eq_ok {before copies' : List (Copy σ)} (h : start before copies = (.ok (), copies')) :
    copies' = before ++ copies.map (·.start.2) ∧ ∀ c ∈ copies, c.start.1 = .ok () := by
  induction copies generalizing before with
  | nil =>
    cases h
    exact ⟨(List.append_nil _).symm, fun c hc => nomatch hc⟩
  | cons c rest ih =>
    rw [start] at h
    rcases hstart : c.start with ⟨(f | crash) | ⟨⟩, d⟩
    · rw [hstart] at h
      rcases hf : finish before none with ⟨(f' | crash) | ⟨⟩, before'⟩ <;> simp [hf] at h
    · rw [hstart] at h
      cases h
    · rw [hstart] at h
      obtain ⟨rfl, hrest⟩ := ih h
      refine ⟨by rw [List.map_cons, hstart, List.append_assoc, List.singleton_append], ?_⟩
      intro d' hd'
      rcases List.mem_cons.mp hd' with rfl | hd'
      · rw [hstart]
      · exact hrest d' hd'

/-! ### The order of calls -/

theorem inOrder_nil : InOrder ([] : List (Copy σ)) :=
  ⟨by simp, by simp⟩

/-- Copies none of which has seen rows. -/
theorem InOrder.of_idle (h : ∀ c ∈ copies, Call.InOrder c.calls ∧ ¬ c.HasWorked) : InOrder copies :=
  ⟨fun c hc => (h c hc).1, fun c hc hworked => absurd hworked (h c hc).2⟩

/-- Copies all of which were set up. -/
theorem InOrder.of_setUp (h : ∀ c ∈ copies, Call.InOrder c.calls ∧ c.IsSetUp) : InOrder copies :=
  ⟨fun c hc => (h c hc).1, fun _ _ _ other hother => (h other hother).2⟩

theorem Going.inOrder (h : Going copies) : InOrder copies :=
  InOrder.of_setUp fun c hc => ⟨.going (h c hc), (h c hc).set_up⟩

/-- A copy that was fresh before the setup has not seen rows. -/
theorem SetUp.idle {c c' : Copy σ} (h : SetUp c c') (hfresh : c.calls = []) :
    Call.InOrder c'.calls ∧ ¬ c'.HasWorked := by
  cases h with
  | untouched =>
    rw [Copy.HasWorked, hfresh]
    exact ⟨.untouched, by simp⟩
  | tried =>
    refine ⟨Copy.inOrder_start hfresh, ?_⟩
    rw [Copy.HasWorked, Copy.calls_start, hfresh]
    simp
  | undone returned =>
    refine ⟨Copy.inOrder_done (Copy.going_start hfresh returned), ?_⟩
    rw [Copy.HasWorked, Copy.calls_done, Copy.calls_start, hfresh]
    simp

theorem inOrder_finish (h : Going copies) (first : Option Fault) : InOrder (finish copies first).2 := by
  refine .of_setUp fun c' hc' => ?_
  obtain ⟨c, hc, rfl | rfl⟩ := mem_finish hc'
  · exact ⟨.going (h _ hc), (h _ hc).set_up⟩
  · refine ⟨Copy.inOrder_done (h c hc), ?_⟩
    rw [Copy.IsSetUp, Copy.calls_done]
    exact List.mem_cons_of_mem _ (h c hc).set_up

theorem going_mapReduce (h : Going copies) (rows : List Row) : Going (mapReduce rows copies).2 := by
  intro c' hc'
  obtain ⟨c, hc, rfl | rfl⟩ := mem_mapReduce hc'
  · exact h _ hc
  · exact Copy.going_mapReduce (h c hc) rows

end Copies

/-! ## Engines -/

namespace Engine

variable {order : FieldOrder} {configured copies : List (Copy σ)} {engine : Engine σ}

theorem fresh_clones (configured : List (Copy σ)) : ∀ c ∈ configured.map Copy.clone, c.calls = [] := by
  simp [Copy.clone, Copy.fresh]

theorem going_of_start (h : start order configured = (.ok engine, copies)) :
    Copies.Going engine.copies := by
  rw [start] at h
  split at h
  · cases h
  · split at h
    · rename_i hs
      cases h
      obtain ⟨rfl, hok⟩ := Copies.start_eq_ok hs
      intro c' hc'
      obtain ⟨c, hc, rfl⟩ := List.mem_map.mp hc'
      exact Copy.going_start (fresh_clones configured c hc) (hok c hc)
    · cases h

theorem inOrder_of_start {s : Stop} (h : start order configured = (.error s, copies)) :
    Copies.InOrder copies := by
  have hfresh := fresh_clones configured
  rw [start] at h
  split at h
  · cases h
    refine .of_idle fun c hc => ?_
    exact (Copies.SetUp.untouched (c := c)).idle (hfresh c hc)
  · split at h
    · cases h
    · rename_i hs
      cases h
      refine .of_idle fun c' hc' => ?_
      have hmem : c' ∈ (Copies.start [] (configured.map Copy.clone)).2 := by rwa [hs]
      rcases Copies.mem_start hmem with ⟨c, hc, -⟩ | ⟨c, hc, hset⟩
      · cases hc
      · exact hset.idle (hfresh c hc)

/-- Engines keep to the order of calls. -/
theorem going_process (h : Copies.Going engine.copies) (entropy : Entropy) (cancelled : Nat → Bool)
    (specs : List RowSpec) : Copies.Going (engine.process entropy cancelled specs).2.copies := by
  rw [process]
  split
  · exact h
  · exact Copies.going_mapReduce h _

end Engine

end SeededRows
