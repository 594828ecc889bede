/-
  SeededRows.Proofs.Engine.Lifecycle

  The lives of the copies of an engine. An engine that could be made has all its copies in use, and
  rows change nothing about that. When it is torn down, or could not be made, every copy that had
  been set up is torn down once, whatever faults occur on the way; only a crash in setting a copy up
  or in tearing one down can leave others behind.
-/
import SeededRows.Engine
import SeededRows.Proofs.Aggregator.Calls

namespace SeededRows

variable {σ : Type}

namespace Copies

/-- All copies are in use. -/
def InUse (copies : List (Copy σ)) : Prop := ∀ c ∈ copies, c.InUse

/-- Every copy that was set up was torn down once. -/
def TornDown (copies : List (Copy σ)) : Prop := ∀ c ∈ copies, c.TornDown

/-- Setting one of the copies up or tearing it down crashed. -/
def Crashed (copies : List (Copy σ)) : Prop := ∃ c ∈ copies, c.Crashed

variable {copies : List (Copy σ)}

theorem Crashed.append (h : Crashed copies) (more : List (Copy σ)) : Crashed (copies ++ more) := by
  obtain ⟨c, hc, hcrashed⟩ := h
  exact ⟨c, List.mem_append_left more hc, hcrashed⟩

/-- A copy that nothing was called on has nothing to be torn down. -/
theorem tornDown_of_fresh (h : ∀ c ∈ copies, c.calls = []) : TornDown copies := by
  intro c hc hsetup
  rw [Copy.IsSetUp, h c hc] at hsetup
  cases hsetup

/-- Copies that are torn down in order all are, unless one of them crashes. -/
theorem finish_cases (h : InUse copies) (first : Option Fault) :
    TornDown (finish copies first).2 ∨
      (∃ crash, (finish copies first).1 = .error (.crash crash)) ∧ Crashed (finish copies first).2 := by
  induction copies generalizing first with
  | nil =>
    left
    cases first <;> exact fun c hc => nomatch hc
  | cons c rest ih =>
    have hc : c.done.2.TornDown := (h c List.mem_cons_self).done
    have hrest : InUse rest := fun d hd => h d (List.mem_cons_of_mem c hd)
    -- whether or not there was a fault, the next copies follow
    have hgoes : ∀ first', TornDown (c.done.2 :: (finish rest first').2) ∨
        (∃ crash, (finish rest first').1 = .error (.crash crash)) ∧
          Crashed (c.done.2 :: (finish rest first').2) := by
      intro first'
      rcases ih hrest first' with htorn | ⟨hcrash, d, hd, hcrashed⟩
      · left
        intro d hd
        rcases List.mem_cons.mp hd with rfl | hd
        · exact hc
        · exact htorn d hd
      · exact .inr ⟨hcrash, d, List.mem_cons_of_mem _ hd, hcrashed⟩
    rw [Copies.finish]
    rcases hdone : c.done with ⟨(f | crash) | ⟨⟩, c'⟩
    · rw [hdone] at hgoes
      exact hgoes _
    · have hcrashed : c.done.2.Crashed := Copy.crashed_of_done (congrArg Prod.fst hdone)
      rw [hdone] at hcrashed
      exact .inr ⟨⟨crash, rfl⟩, c', List.mem_cons_self, hcrashed⟩
    · rw [hdone] at hgoes
      exact hgoes _

/-- Fresh copies that are set up in order are all in use then; if one of them cannot be set up, the
ones before it are torn down, unless there is a crash. -/
theorem start_cases {before : List (Copy σ)} (hbefore : InUse before)
    (hfresh : ∀ c ∈ copies, c.calls = []) :
    ((start before copies).1 = .ok () ∧ InUse (start before copies).2) ∨
      ((∃ s, (start before copies).1 = .error s) ∧
        (TornDown (start before copies).2 ∨ Crashed (start before copies).2)) := by
  induction copies generalizing before with
  | nil => exact .inl ⟨rfl, hbefore⟩
  | cons c rest ih =>
    have hrest : ∀ d ∈ rest, d.calls = [] := fun d hd => hfresh d (List.mem_cons_of_mem c hd)
    have hcases := Copy.start_cases (hfresh c List.mem_cons_self)
    rw [Copies.start]
    rcases hstart : c.start with ⟨(f | crash) | ⟨⟩, c'⟩
    · -- a fault: the copies before are torn down, those after were never called
      have hc : c'.TornDown := by
        simpa [hstart] using hcases
      have hlater : TornDown (c' :: rest) := by
        intro d hd
        rcases List.mem_cons.mp hd with rfl | hd
        · exact hc
        · exact tornDown_of_fresh hrest d hd
      right
      dsimp only
      rcases finish_cases hbefore none with htorn | ⟨⟨crash, hcrash⟩, hcrashed⟩
      · have hall : TornDown ((finish before none).2 ++ c' :: rest) := by
          intro d hd
          rcases List.mem_append.mp hd with hd | hd
          · exact htorn d hd
          · exact hlater d hd
        split
        · rename_i hf
          rw [hf] at hall
          exact ⟨⟨_, rfl⟩, .inl hall⟩
        · rename_i hf
          rw [hf] at hall
          exact ⟨⟨_, rfl⟩, .inl hall⟩
      · have hf : finish before none = (.error (.crash crash), (finish before none).2) :=
          Prod.ext hcrash rfl
        rw [hf]
        exact ⟨⟨_, rfl⟩, .inr (hcrashed.append _)⟩
    · have hc : c'.Crashed := by
        simpa [hstart] using hcases
      refine .inr ⟨⟨_, rfl⟩, .inr ⟨c', ?_, hc⟩⟩
      exact List.mem_append_right before List.mem_cons_self
    · have hc : c'.InUse := by
        simpa [hstart] using hcases
      refine ih ?_ hrest
      intro d hd
      rcases List.mem_append.mp hd with hd | hd
      · exact hbefore d hd
      · rw [List.mem_singleton.mp hd]
        exact hc

/-- Until one of them stops, the copies get the rows of a batch. -/
theorem mem_mapReduce {rows : List Row} {c' : Copy σ} (h : c' ∈ (mapReduce rows copies).2) :
    ∃ c ∈ copies, c' = c ∨ c' = (c.mapReduce rows).2 := by
  induction copies with
  | nil => cases h
  | cons c rest ih =>
    have hthis (hc' : c' = (c.mapReduce rows).2) :
        ∃ d ∈ c :: rest, c' = d ∨ c' = (d.mapReduce rows).2 := ⟨c, List.mem_cons_self, .inr hc'⟩
    have hlater : (∃ d ∈ rest, c' = d ∨ c' = (d.mapReduce rows).2) →
        ∃ d ∈ c :: rest, c' = d ∨ c' = (d.mapReduce rows).2 :=
      fun ⟨d, hd, hcases⟩ => ⟨d, List.mem_cons_of_mem c hd, hcases⟩
    rw [mapReduce] at h
    rcases hmap : c.mapReduce rows with ⟨s | v, d⟩
    · rw [hmap] at h hthis
      rcases List.mem_cons.mp h with hc' | hc'
      · exact hthis hc'
      · exact hlater ⟨c', hc', .inl rfl⟩
    · rw [hmap] at h hthis
      rcases List.mem_cons.mp h with hc' | hc'
      · exact hthis hc'
      · exact hlater (ih hc')

theorem inUse_mapReduce (h : InUse copies) (rows : List Row) : InUse (mapReduce rows copies).2 := by
  intro c' hc'
  obtain ⟨c, hc, rfl | rfl⟩ := mem_mapReduce hc'
  · exact h _ hc
  · exact (h c hc).mapReduce rows

end Copies

namespace Engine

variable {order : FieldOrder} {configured copies : List (Copy σ)} {engine : Engine σ}

theorem inUse_of_start (h : start order configured = (.ok engine, copies)) :
    Copies.InUse engine.copies := by
  have hfresh : ∀ c ∈ configured.map Copy.clone, c.calls = [] := by simp [Copy.clone, Copy.fresh]
  rw [start] at h
  split at h
  · cases h
  · have hnone : Copies.InUse ([] : List (Copy σ)) := fun c hc => nomatch hc
    have hcases := Copies.start_cases hnone hfresh
    split at h
    · rename_i hs
      cases h
      simpa [hs] using hcases
    · cases h

/-- What becomes of the copies of an engine that cannot be made. -/
theorem tornDown_of_start {s : Stop} (h : start order configured = (.error s, copies)) :
    Copies.TornDown copies ∨ Copies.Crashed copies := by
  have hfresh : ∀ c ∈ configured.map Copy.clone, c.calls = [] := by simp [Copy.clone, Copy.fresh]
  rw [start] at h
  split at h
  · cases h
    exact .inl (Copies.tornDown_of_fresh hfresh)
  · have hnone : Copies.InUse ([] : List (Copy σ)) := fun c hc => nomatch hc
    have hcases := Copies.start_cases hnone hfresh
    split at h
    · cases h
    · rename_i hs
      cases h
      simpa [hs] using hcases

theorem inUse_process (h : Copies.InUse engine.copies) (entropy : Entropy) (cancelled : Nat → Bool)
    (specs : List RowSpec) : Copies.InUse (engine.process entropy cancelled specs).2.copies := by
  rw [process]
  split
  · exact h
  · exact Copies.inUse_mapReduce h _

theorem tornDown_done (h : Copies.InUse engine.copies) :
    Copies.TornDown engine.done.2.copies ∨ Copies.Crashed engine.done.2.copies := by
  rcases Copies.finish_cases h none with htorn | ⟨-, hcrashed⟩
  · exact .inl htorn
  · exact .inr hcrashed

end Engine

end SeededRows
