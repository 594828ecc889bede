/-
  SeededRows.Proofs.Engine.Copies

  What the hooks of aggregators cannot change about an engine: however they end, no copy is lost
  or added, a batch that is worked through yields one accumulator for each copy, and only a run
  that is cancelled makes an engine give a batch up.
-/
import Mathlib.Data.List.Forall2
import SeededRows.Engine

namespace SeededRows

variable {σ : Type}

/-! ## Two lists place by place -/

section

variable {α β γ : Type} {R : α → β → Prop}

theorem forall₂_comp {S : β → γ → Prop} {T : α → γ → Prop} {l₁ : List α} {l₂ : List β} {l₃ : List γ}
    (h : List.Forall₂ R l₁ l₂) (h' : List.Forall₂ S l₂ l₃)
    (hcomp : ∀ {a b c}, R a b → S b c → T a c) : List.Forall₂ T l₁ l₃ := by
  induction h generalizing l₃ with
  | nil =>
    cases h'
    exact .nil
  | cons hab _ ih =>
    cases h' with
    | cons hbc hrest => exact .cons (hcomp hab hbc) (ih hrest)

theorem forall₂_getElem? {l₁ : List α} {l₂ : List β} (h : List.Forall₂ R l₁ l₂) {i : Nat} {b : β}
    (hb : l₂[i]? = some b) : ∃ a, l₁[i]? = some a ∧ R a b := by
  induction h generalizing i with
  | nil => cases hb
  | cons hab _ ih =>
    cases i with
    | zero =>
      cases hb
      exact ⟨_, rfl, hab⟩
    | succ i => exact ih hb

theorem exists_forall₂ {l : List α} (h : ∀ a ∈ l, ∃ b, R a b) : ∃ l' : List β, List.Forall₂ R l l' := by
  induction l with
  | nil => exact ⟨[], .nil⟩
  | cons a l ih =>
    obtain ⟨b, hb⟩ := h a List.mem_cons_self
    obtain ⟨l', hl'⟩ := ih fun a' ha' => h a' (List.mem_cons_of_mem a ha')
    exact ⟨b :: l', .cons hb hl'⟩

theorem forall₂_filterMap {f : β → Option γ} {S : α → γ → Prop} {l₁ : List α} {l₂ : List β}
    (h : List.Forall₂ (fun a b => ∃ c, f b = some c ∧ S a c) l₁ l₂) :
    List.Forall₂ S l₁ (l₂.filterMap f) := by
  induction h with
  | nil => exact .nil
  | cons hfirst _ ih =>
    obtain ⟨c, hc, hS⟩ := hfirst
    rw [List.filterMap_cons_some hc]
    exact .cons hS ih

end

namespace Copies

/-! ## Numbers of copies -/

theorem length_finish (copies : List (Copy σ)) (first : Option Fault) :
    (finish copies first).2.length = copies.length := by
  induction copies generalizing first with
  | nil => cases first <;> rfl
  | cons c rest ih =>
    rw [finish]
    split
    · rfl
    · rename_i f c' _
      exact congrArg (· + 1) (ih _)
    · exact congrArg (· + 1) (ih _)

theorem length_start (copies before : List (Copy σ)) :
    (start before copies).2.length = before.length + copies.length := by
  induction copies generalizing before with
  | nil => rfl
  | cons c rest ih =>
    rw [start]
    split
    · rw [ih, List.length_append, List.length_singleton, List.length_cons]
      omega
    · rw [List.length_append, List.length_cons, List.length_cons]
    · -- the ones before are torn down first, which loses none of them
      have hfinish := length_finish before none
      split
      · rename_i hf
        rw [hf] at hfinish
        rw [List.length_append, hfinish, List.length_cons, List.length_cons]
      · rename_i hf
        rw [hf] at hfinish
        rw [List.length_append, hfinish, List.length_cons, List.length_cons]

theorem length_mapReduce (rows : List Row) (copies : List (Copy σ)) :
    (mapReduce rows copies).2.length = copies.length := by
  induction copies with
  | nil => rfl
  | cons c rest ih =>
    rw [mapReduce]
    split
    · rfl
    · exact congrArg (· + 1) ih

/-- A batch that no copy stops at yields one accumulator for each copy. -/
theorem length_results {rows : List Row} {copies : List (Copy σ)} {results : List Accumulator}
    (h : (mapReduce rows copies).1 = .ok results) : results.length = copies.length := by
  induction copies generalizing results with
  | nil =>
    cases h
    rfl
  | cons c rest ih =>
    rw [mapReduce] at h
    split at h
    · cases h
    · dsimp only at h
      cases hr : (mapReduce rows rest).1 with
      | error s =>
        rw [hr] at h
        cases h
      | ok more =>
        rw [hr] at h
        cases h
        rw [List.length_cons, ih hr, List.length_cons]

end Copies

namespace Engine

/-! ## Engines keep their copies -/

/-- An engine has one copy of each configured aggregator. -/
theorem length_copies_start {order : FieldOrder} {configured copies : List (Copy σ)}
    {engine : Engine σ} (h : start order configured = (.ok engine, copies)) :
    engine.copies.length = configured.length := by
  rw [start] at h
  split at h
  · cases h
  · have hlen := Copies.length_start (configured.map Copy.clone) []
    rw [List.length_nil, Nat.zero_add, List.length_map] at hlen
    split at h
    · rename_i hs
      rw [hs] at hlen
      cases h
      exact hlen
    · cases h

theorem length_copies_process (engine : Engine σ) (entropy : Entropy) (cancelled : Nat → Bool)
    (specs : List RowSpec) :
    (engine.process entropy cancelled specs).2.copies.length = engine.copies.length := by
  rw [process]
  split
  · rfl
  · exact Copies.length_mapReduce _ _

/-- An engine yields one accumulator of a batch for each of its copies. -/
theorem length_results {engine : Engine σ} {entropy : Entropy} {cancelled : Nat → Bool}
    {specs : List RowSpec} {results : List Accumulator}
    (h : (engine.process entropy cancelled specs).1 = .ok results) :
    results.length = engine.copies.length := by
  rw [process] at h
  split at h
  · cases h
  · rename_i rows _
    apply Copies.length_results
    dsimp only at h
    cases hr : (Copies.mapReduce rows engine.copies).1 with
    | error s =>
      rw [hr] at h
      cases h
    | ok more =>
      rw [hr] at h
      cases h
      rfl

/-! ## Cancelled batches -/

/-- Rows are given up only when the run is seen to be cancelled. -/
theorem generateRows_cancelled {engine : Engine σ} {entropy : Entropy} {cancelled : Nat → Bool}
    {specs : List RowSpec} {place : Nat}
    (h : engine.generateRows entropy cancelled place specs = .error .cancelled) :
    ∃ i, cancelled i = true := by
  induction specs generalizing place with
  | nil => cases h
  | cons spec rest ih =>
    rw [generateRows] at h
    split at h
    · rename_i hc
      exact ⟨place, hc⟩
    · split at h
      · cases h
      · cases hr : engine.generateRows entropy cancelled (place + 1) rest with
        | error halt =>
          rw [hr] at h
          cases h
          exact ih hr
        | ok rows =>
          rw [hr] at h
          cases h

theorem process_cancelled {engine : Engine σ} {entropy : Entropy} {cancelled : Nat → Bool}
    {specs : List RowSpec}
    (h : (engine.process entropy cancelled specs).1 = .error .cancelled) :
    ∃ i, cancelled i = true := by
  rw [process] at h
  split at h
  · rename_i halt hg
    cases h
    exact generateRows_cancelled hg
  · -- the aggregators do not look for a cancellation
    rename_i rows _
    dsimp only at h
    cases hr : (Copies.mapReduce rows engine.copies).1 with
    | error s =>
      rw [hr] at h
      cases h
    | ok more =>
      rw [hr] at h
      cases h

end Engine

end SeededRows
