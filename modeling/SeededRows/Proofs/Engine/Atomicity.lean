/-
  SeededRows.Proofs.Engine.Atomicity

  A batch is worked through in two passes: all of its rows are drawn, and then they are fed to the
  aggregators one after the other. A batch that is given up in the first pass therefore leaves the
  engine as it was, and no row is drawn after the one that it was given up for. In the second pass an
  aggregator that stops keeps the ones after it from the rows.
-/
import Mathlib.Data.List.Induction
import SeededRows.Proofs.Engine.Copies

namespace SeededRows

variable {σ : Type}

/-! ## The pass that draws -/

namespace Engine

/-- Draws rows in order as `generateRows` does, and notes the specs whose rows it set out to draw. -/
def drawing (e : Engine σ) (entropy : Entropy) (cancelled : Nat → Bool) (place : Nat) :
    List RowSpec → Except Halt (List Row) × List RowSpec
  | [] => (.ok [], [])
  | spec :: rest =>
    if cancelled place then (.error .cancelled, [])
    else
      match e.generateRow entropy spec with
      | .error s => (.error (.stop s), [spec])
      | .ok row =>
        let (r, noted) := e.drawing entropy cancelled (place + 1) rest
        (r.map (row :: ·), spec :: noted)

/-- The specs whose rows are looked at before all are drawn, none is cancelled and none stops. -/
structure DrawsAll (e : Engine σ) (entropy : Entropy) (cancelled : Nat → Bool) (specs : List RowSpec)
    (rows : List Row) : Prop where
  unseen : ∀ place < specs.length, cancelled place = false
  drawn : List.Forall₂ (fun spec row => e.generateRow entropy spec = .ok row) specs rows

/-- A batch is given up after the rows of some of its specs: the run is seen to be cancelled before
the next row, or that row stops. -/
structure GivesUp (e : Engine σ) (entropy : Entropy) (cancelled : Nat → Bool) (specs : List RowSpec)
    (before : List RowSpec) (spec : RowSpec) (halt : Halt) : Prop where
  split : ∃ after, specs = before ++ spec :: after
  passed : ∃ rows, e.DrawsAll entropy cancelled before rows
  halts : cancelled before.length = true ∧ halt = .cancelled ∨
    cancelled before.length = false ∧ ∃ stop, e.generateRow entropy spec = .error stop ∧
      halt = .stop stop

variable {e : Engine σ} {entropy : Entropy} {cancelled : Nat → Bool} {specs before after : List RowSpec}
  {spec : RowSpec} {rows : List Row} {halt : Halt}

theorem drawing_fst (place : Nat) :
    (e.drawing entropy cancelled place specs).1 = e.generateRows entropy cancelled place specs := by
  induction specs generalizing place with
  | nil => rfl
  | cons spec rest ih =>
    rw [drawing, generateRows]
    by_cases hcancelled : cancelled place = true
    · rw [if_pos hcancelled, if_pos hcancelled]
    · rw [if_neg hcancelled, if_neg hcancelled]
      cases e.generateRow entropy spec with
      | error s => rfl
      | ok row => exact congrArg (Except.map (row :: ·)) (ih (place + 1))

/-- After specs whose rows are drawn, drawing goes on with the rest of them. -/
theorem drawing_append {place : Nat} (hunseen : ∀ i < before.length, cancelled (place + i) = false)
    (hdrawn : List.Forall₂ (fun spec row => e.generateRow entropy spec = .ok row) before rows) :
    e.drawing entropy cancelled place (before ++ after) =
      ((e.drawing entropy cancelled (place + before.length) after).1.map (rows ++ ·),
        before ++ (e.drawing entropy cancelled (place + before.length) after).2) := by
  induction hdrawn generalizing place with
  | nil =>
    rw [List.nil_append, List.length_nil, Nat.add_zero, List.nil_append]
    rcases e.drawing entropy cancelled place after with ⟨r | r, noted⟩ <;> rfl
  | @cons spec row before rows hrow _ ih =>
    have hplace : cancelled place = false := hunseen 0 (Nat.succ_pos _)
    have hlater : ∀ i < before.length, cancelled (place + 1 + i) = false := by
      intro i hi
      rw [Nat.add_right_comm]
      exact hunseen (i + 1) (Nat.succ_lt_succ hi)
    rw [List.cons_append, drawing, if_neg (by simp [hplace]), hrow]
    dsimp only
    rw [ih hlater, List.length_cons, Nat.add_comm before.length, ← Nat.add_assoc]
    rcases (e.drawing entropy cancelled (place + 1 + before.length) after).1 with halt | more <;> rfl

/-- When all rows are drawn, they are what drawing gives. -/
theorem DrawsAll.drawing (h : e.DrawsAll entropy cancelled specs rows) :
    e.drawing entropy cancelled 0 specs = (.ok rows, specs) := by
  have hunseen : ∀ i < specs.length, cancelled (0 + i) = false := by simpa using h.unseen
  rw [← List.append_nil specs, drawing_append hunseen h.drawn, List.append_nil]
  simp [Engine.drawing, Except.map]

/-- When a batch is given up, this is what drawing gives, and no later row is drawn. -/
theorem GivesUp.drawing (h : e.GivesUp entropy cancelled specs before spec halt) :
    e.drawing entropy cancelled 0 specs =
      (.error halt, if cancelled before.length then before else before ++ [spec]) := by
  obtain ⟨⟨after, rfl⟩, ⟨rows, hrows⟩, hhalts⟩ := h
  have hunseen : ∀ i < before.length, cancelled (0 + i) = false := by simpa using hrows.unseen
  rw [drawing_append hunseen hrows.drawn, Nat.zero_add]
  obtain ⟨hcancelled, rfl⟩ | ⟨hcancelled, stop, hstop, rfl⟩ := hhalts
  · rw [if_pos hcancelled, Engine.drawing, if_pos hcancelled, List.append_nil]
    rfl
  · have hgoing : ¬ cancelled before.length = true := by simp [hcancelled]
    rw [if_neg hgoing, Engine.drawing, if_neg hgoing, hstop]
    rfl

/-- A batch is given up unless all its rows are drawn. -/
theorem drawsAll_or_givesUp (e : Engine σ) (entropy : Entropy) (cancelled : Nat → Bool)
    (specs : List RowSpec) : (∃ rows, e.DrawsAll entropy cancelled specs rows) ∨
      ∃ before spec halt, e.GivesUp entropy cancelled specs before spec halt := by
  induction specs using List.reverseRecOn with
  | nil => exact .inl ⟨[], fun _ hplace => absurd hplace (Nat.not_lt_zero _), .nil⟩
  | append_singleton specs spec ih =>
    obtain ⟨rows, hrows⟩ | ⟨before, spec', halt, ⟨after, rfl⟩, hpassed, hhalts⟩ := ih
    · by_cases hcancelled : cancelled specs.length = true
      · exact .inr ⟨specs, spec, .cancelled, ⟨[], rfl⟩, ⟨rows, hrows⟩, .inl ⟨hcancelled, rfl⟩⟩
      · have hgoing : cancelled specs.length = false := Bool.eq_false_iff.mpr hcancelled
        cases hrow : e.generateRow entropy spec with
        | error stop =>
          exact .inr ⟨specs, spec, .stop stop, ⟨[], rfl⟩, ⟨rows, hrows⟩,
            .inr ⟨hgoing, stop, hrow, rfl⟩⟩
        | ok row =>
          refine .inl ⟨rows ++ [row], ?_, List.rel_append hrows.drawn (.cons hrow .nil)⟩
          intro place hplace
          rw [List.length_append, List.length_singleton] at hplace
          by_cases hlast : place = specs.length
          · rw [hlast, hgoing]
          · exact hrows.unseen place (by omega)
    · refine .inr ⟨before, spec', halt, ⟨after ++ [spec], ?_⟩, hpassed, hhalts⟩
      rw [List.append_assoc, List.cons_append]

/-- A batch is given up when the run is seen to be cancelled before any of its rows, or when any of
them stops. -/
theorem givesUp_iff : (∃ before spec halt, e.GivesUp entropy cancelled specs before spec halt) ↔
    ∃ place spec, specs[place]? = some spec ∧
      (cancelled place = true ∨ ∃ stop, e.generateRow entropy spec = .error stop) := by
  constructor
  · rintro ⟨before, spec, halt, ⟨after, rfl⟩, -, hhalts⟩
    refine ⟨before.length, spec, ?_, ?_⟩
    · rw [List.getElem?_append_right (Nat.le_refl _), Nat.sub_self]
      rfl
    · obtain ⟨hcancelled, -⟩ | ⟨-, stop, hstop, -⟩ := hhalts
      · exact .inl hcancelled
      · exact .inr ⟨stop, hstop⟩
  · rintro ⟨place, spec, hspec, hbad⟩
    obtain ⟨rows, hrows⟩ | hgivesUp := drawsAll_or_givesUp e entropy cancelled specs
    · obtain ⟨hlt, hget⟩ := List.getElem?_eq_some_iff.mp hspec
      obtain hcancelled | ⟨stop, hstop⟩ := hbad
      · rw [hrows.unseen place hlt] at hcancelled
        cases hcancelled
      · obtain ⟨row, -, hrow⟩ := forall₂_getElem? hrows.drawn.flip hspec
        cases hrow.symm.trans hstop
    · exact hgivesUp

end Engine

/-! ## The pass that feeds -/

namespace Copies

/-- Copies that were all fed the same rows: the accumulators that they yielded, one each, and the
copies afterwards. -/
inductive Fed (rows : List Row) : List (Copy σ) → List Accumulator → List (Copy σ) → Prop
  | nil : Fed rows [] [] []
  | cons {c c' : Copy σ} {acc : Accumulator} {rest rest' : List (Copy σ)} {accs : List Accumulator} :
      c.mapReduce rows = (.ok acc, c') → Fed rows rest accs rest' →
      Fed rows (c :: rest) (acc :: accs) (c' :: rest')

/-- The first of some copies that stops at rows: those before it were fed, and those after it are
as they were. -/
def StopsAt (rows : List Row) (copies : List (Copy σ)) (stop : Stop) (copies' : List (Copy σ)) : Prop :=
  ∃ before c after accs before' c', copies = before ++ c :: after ∧ Fed rows before accs before' ∧
    c.mapReduce rows = (.error stop, c') ∧ copies' = before' ++ c' :: after

variable {rows : List Row} {copies copies' : List (Copy σ)} {accs : List Accumulator} {stop : Stop}

theorem Fed.mapReduce (h : Fed rows copies accs copies') :
    mapReduce rows copies = (.ok accs, copies') := by
  induction h with
  | nil => rfl
  | cons hc _ ih =>
    rw [Copies.mapReduce, hc]
    dsimp only
    rw [ih]
    rfl

theorem StopsAt.mapReduce (h : StopsAt rows copies stop copies') :
    mapReduce rows copies = (.error stop, copies') := by
  obtain ⟨before, c, after, accs, before', c', rfl, hfed, hstop, rfl⟩ := h
  induction hfed with
  | nil =>
    rw [List.nil_append, Copies.mapReduce, hstop]
    rfl
  | cons hc _ ih =>
    rw [List.cons_append, Copies.mapReduce, hc]
    dsimp only
    rw [ih]
    rfl

/-- Copies are all fed unless one of them stops. -/
theorem fed_or_stopsAt (rows : List Row) (copies : List (Copy σ)) :
    (∃ accs copies', Fed rows copies accs copies') ∨
      ∃ stop copies', StopsAt rows copies stop copies' := by
  induction copies with
  | nil => exact .inl ⟨[], [], .nil⟩
  | cons c rest ih =>
    rcases hc : c.mapReduce rows with ⟨stop | acc, c'⟩
    · exact .inr ⟨stop, c' :: rest, [], c, rest, [], [], c', rfl, .nil, hc, rfl⟩
    · obtain ⟨accs, rest', hfed⟩ |
        ⟨stop, rest', before, d, after, accs, before', d', rfl, hfed, hstop, rfl⟩ := ih
      · exact .inl ⟨acc :: accs, c' :: rest', .cons hc hfed⟩
      · exact .inr ⟨stop, c' :: (before' ++ d' :: after), c :: before, d, after, acc :: accs,
          c' :: before', d', rfl, .cons hc hfed, hstop, rfl⟩

end Copies

/-! ## Both passes -/

namespace Engine

variable {e : Engine σ} {entropy : Entropy} {cancelled : Nat → Bool} {specs before : List RowSpec}
  {spec : RowSpec} {rows : List Row} {halt : Halt} {copies' : List (Copy σ)}

/-- A batch that is given up leaves the engine as it was. -/
theorem GivesUp.process (h : e.GivesUp entropy cancelled specs before spec halt) :
    e.process entropy cancelled specs = (.error halt, e) := by
  have hrows : e.generateRows entropy cancelled 0 specs = .error halt := by
    rw [← drawing_fst, h.drawing]
  rw [Engine.process, hrows]

theorem DrawsAll.process (h : e.DrawsAll entropy cancelled specs rows) :
    e.process entropy cancelled specs =
      ((Copies.mapReduce rows e.copies).1.mapError .stop,
        { e with copies := (Copies.mapReduce rows e.copies).2 }) := by
  have hrows : e.generateRows entropy cancelled 0 specs = .ok rows := by
    rw [← drawing_fst, h.drawing]
  rw [Engine.process, hrows]

theorem DrawsAll.process_fed {accs : List Accumulator} (h : e.DrawsAll entropy cancelled specs rows)
    (hfed : Copies.Fed rows e.copies accs copies') :
    e.process entropy cancelled specs = (.ok accs, { e with copies := copies' }) := by
  rw [h.process, hfed.mapReduce]
  rfl

theorem DrawsAll.process_stopsAt {stop : Stop} (h : e.DrawsAll entropy cancelled specs rows)
    (hstops : Copies.StopsAt rows e.copies stop copies') :
    e.process entropy cancelled specs = (.error (.stop stop), { e with copies := copies' }) := by
  rw [h.process, hstops.mapReduce]
  rfl

/-- What a batch yields is one accumulator of all its rows for each copy, in their order. -/
theorem process_eq_ok {accs : List Accumulator} {e' : Engine σ}
    (h : e.process entropy cancelled specs = (.ok accs, e')) :
    ∃ rows copies', e.DrawsAll entropy cancelled specs rows ∧
      Copies.Fed rows e.copies accs copies' ∧ e' = { e with copies := copies' } := by
  obtain ⟨rows, hrows⟩ | ⟨before, spec, halt, hgivesUp⟩ :=
    drawsAll_or_givesUp e entropy cancelled specs
  · obtain ⟨accs', copies', hfed⟩ | ⟨stop, copies', hstops⟩ := Copies.fed_or_stopsAt rows e.copies
    · rw [hrows.process_fed hfed] at h
      cases h
      exact ⟨rows, copies', hrows, hfed, rfl⟩
    · rw [hrows.process_stopsAt hstops] at h
      cases h
  · rw [hgivesUp.process] at h
    cases h

end Engine

end SeededRows
