/-
  SeededRows.Proofs.Pool.Control

  Where the coordinator stands, and what that says of its phase, of the cancel flag, of the task
  channel and of the workers and batches that it waits for. None of it depends on what the
  workers do, so only the coordinator's moves are looked at.
-/
import SeededRows.Proofs.Pool.Frame

namespace SeededRows.Pool

variable {σ : Type} {setup : Setup σ} {p q : Pool σ}

/-- The coordinator goes round in one of its loops, in which it waits for reports. -/
def Control.Polls : Control → Prop
  | .atFailures | .atReports | .asleep | .checking _ | .checkingReports _ => True
  | _ => False

/-- The run was not given up, and the coordinator has not returned. -/
def Control.Live : Control → Prop
  | .aborting _ | .returned _ => False
  | _ => True

theorem Control.Polls.live {c : Control} (h : c.Polls) : c.Live := by
  cases c <;> first | exact h.elim | trivial

/-- What the place of the coordinator says of the other things that belong to it. -/
structure Steered (p : Pool σ) : Prop where
  aborting : ∀ {error}, p.control = .aborting error → p.cancel = true
  cancelled : p.cancel = true →
    (∃ error, p.control = .aborting error) ∨ ∃ error, p.control = .returned (.error error)
  closed : p.tasksOpen = false →
    p.control = .joining ∨ (∃ error, p.control = .aborting error) ∨ ∃ o, p.control = .returned o
  shut : p.control = .joining ∨ (∃ error, p.control = .aborting error) → p.tasksOpen = false
  polling : p.control.Polls → p.phase = .running ∨ p.phase = .draining
  ending : p.control = .joining ∨ (∃ left, p.control = .closing left) → p.phase = .draining
  missing : p.control.Polls → p.phase = .draining → p.dying.length < p.workers.length
  joining : p.control = .joining → p.workers.length ≤ p.dying.length
  emptied : p.cancel = false → p.phase = .draining ∨ p.control = .returned (.ok ()) →
    p.outstanding = []
  awaiting : p.control.Polls → p.phase = .running → p.outstanding ≠ []

theorem Steered.going (h : p.Steered) (hl : p.control.Live) : p.cancel = false := by
  cases hc : p.cancel with
  | false => rfl
  | true =>
    rcases h.cancelled hc with ⟨error, he⟩ | ⟨error, he⟩
    · rw [he] at hl
      exact hl.elim
    · rw [he] at hl
      exact hl.elim

/-! ## Where the coordinator can stand -/

/-- A coordinator that goes round in one of its loops: it waits for batches, or for ends. -/
theorem Steered.of_polls (hpolls : q.control.Polls) (hgoing : q.cancel = false)
    (hopen : q.tasksOpen = true)
    (hphase : (q.phase = .running ∧ q.outstanding ≠ []) ∨
      (q.phase = .draining ∧ q.outstanding = [] ∧ q.dying.length < q.workers.length)) :
    q.Steered := by
  -- it stands at none of the places that are outside its loops
  have hnot {c : Control} (hc : q.control = c) : c.Polls := hc ▸ hpolls
  have hrunning (hdraining : q.phase = .draining) :
      q.outstanding = [] ∧ q.dying.length < q.workers.length := by
    rcases hphase with ⟨hrunning, -⟩ | ⟨-, hwaits⟩
    · cases hrunning.symm.trans hdraining
    · exact hwaits
  constructor
  · exact fun hc => (hnot hc).elim
  · exact fun hcancel => nomatch hgoing.symm.trans hcancel
  · exact fun hclosed => nomatch hopen.symm.trans hclosed
  · rintro (hc | ⟨error, hc⟩)
    · exact (hnot hc).elim
    · exact (hnot hc).elim
  · exact fun _ => hphase.imp And.left And.left
  · rintro (hc | ⟨left, hc⟩)
    · exact (hnot hc).elim
    · exact (hnot hc).elim
  · exact fun _ hdraining => (hrunning hdraining).2
  · exact fun hc => (hnot hc).elim
  · rintro - (hdraining | hc)
    · exact (hrunning hdraining).1
    · exact (hnot hc).elim
  · rintro - hrunning
    rcases hphase with ⟨-, hout⟩ | ⟨hdraining, -⟩
    · exact hout
    · cases hrunning.symm.trans hdraining

/-- A coordinator that drains the pool, and has not begun to wait for ends or is past that. -/
theorem Steered.of_draining (hgoing : q.cancel = false) (hphase : q.phase = .draining)
    (hout : q.outstanding = [])
    (hcontrol : (∃ left, q.control = .closing left) ∧ q.tasksOpen = true ∨
      q.control = .joining ∧ q.tasksOpen = false ∧ q.workers.length ≤ q.dying.length) :
    q.Steered := by
  -- both places are outside the loops, and only the second one needs the channel closed
  have hnot : ¬ q.control.Polls := by
    rcases hcontrol with ⟨⟨left, hc⟩, -⟩ | ⟨hc, -⟩
    · exact fun hpolls => (hc ▸ hpolls : (Control.closing left).Polls)
    · exact fun hpolls => (hc ▸ hpolls : Control.joining.Polls)
  have hshut : q.control = .joining ∨ (∃ error, q.control = .aborting error) →
      q.tasksOpen = false ∧ q.workers.length ≤ q.dying.length := by
    rcases hcontrol with ⟨⟨left, hc⟩, -⟩ | ⟨-, hjoins⟩
    · rw [hc]
      rintro (h | ⟨error, h⟩)
      · cases h
      · cases h
    · exact fun _ => hjoins
  constructor
  · intro error hc
    rcases hcontrol with ⟨⟨left, hc'⟩, -⟩ | ⟨hc', -⟩
    · cases hc.symm.trans hc'
    · cases hc.symm.trans hc'
  · exact fun hcancel => nomatch hgoing.symm.trans hcancel
  · intro hclosed
    rcases hcontrol with ⟨-, hopen⟩ | ⟨hc, -⟩
    · cases hopen.symm.trans hclosed
    · exact .inl hc
  · exact fun hc => (hshut hc).1
  · exact fun hpolls => absurd hpolls hnot
  · exact fun _ => hphase
  · exact fun hpolls => absurd hpolls hnot
  · exact fun hc => (hshut (.inl hc)).2
  · exact fun _ _ => hout
  · exact fun hpolls => absurd hpolls hnot

/-- A coordinator that has returned. -/
theorem Steered.of_returned {outcome : Except RunError Unit} (hc : q.control = .returned outcome)
    (hcancel : q.cancel = true → ∃ error, outcome = .error error)
    (hout : q.outstanding = []) : q.Steered := by
  have hnot : ¬ q.control.Polls := fun hpolls => (hc ▸ hpolls : (Control.returned outcome).Polls)
  constructor
  · exact fun hc' => nomatch hc.symm.trans hc'
  · intro hcancelled
    obtain ⟨error, rfl⟩ := hcancel hcancelled
    exact .inr ⟨error, hc⟩
  · exact fun _ => .inr (.inr ⟨outcome, hc⟩)
  · rintro (hc' | ⟨error, hc'⟩)
    · cases hc.symm.trans hc'
    · cases hc.symm.trans hc'
  · exact fun hpolls => absurd hpolls hnot
  · rintro (hc' | ⟨left, hc'⟩)
    · cases hc.symm.trans hc'
    · cases hc.symm.trans hc'
  · exact fun hpolls => absurd hpolls hnot
  · exact fun hc' => nomatch hc.symm.trans hc'
  · exact fun _ _ => hout
  · exact fun hpolls => absurd hpolls hnot

theorem Steered.abort (p : Pool σ) (error : RunError) : (p.abort error).Steered where
  aborting _ := rfl
  cancelled _ := .inl ⟨error, rfl⟩
  closed _ := .inr (.inl ⟨error, rfl⟩)
  shut _ := rfl
  polling h := h.elim
  ending h := by
    rcases h with h | ⟨left, h⟩
    · cases h
    · cases h
  missing h := h.elim
  joining h := by cases h
  emptied h := by cases h
  awaiting h := h.elim

/-! ## Moves -/

/-- Going on to wait for batches, in a pool that is not cancelled. -/
theorem Steered.awaitBatches (hcancel : p.cancel = false) (hopen : p.tasksOpen = true)
    (hphase : p.phase = .running) : p.awaitBatches.Steered := by
  rcases p.awaitBatches_cases with ⟨hout, h⟩ | ⟨hout, h⟩
  · rw [h]
    exact .of_draining hcancel rfl hout (.inl ⟨⟨_, rfl⟩, hopen⟩)
  · rw [h]
    exact .of_polls trivial hcancel hopen (.inl ⟨hphase, hout⟩)

theorem Steered.worker {id : Nat} {w : Worker σ} {s : Option Stop} (h : p.Steered)
    (hm : WorkerMove setup p id w s q) : q.Steered := by
  have hs := hm.sameCoordinator
  constructor <;> rw [hs.control] <;> simp only [hs.cancel, hs.tasksOpen, hs.phase, hs.dying,
    hs.outstanding, hs.length]
  · exact h.aborting
  · exact h.cancelled
  · exact h.closed
  · exact h.shut
  · exact h.polling
  · exact h.ending
  · exact h.missing
  · exact h.joining
  · exact h.emptied
  · exact h.awaiting

theorem refill_phase {p' : Pool σ} (h : p.refill = .ok p') :
    p'.cancel = p.cancel ∧ p'.tasksOpen = p.tasksOpen ∧ p'.phase = p.phase := by
  rcases refill_cases h with ⟨-, rfl⟩ | ⟨_, _, -, rfl⟩
  · exact ⟨rfl, rfl, rfl⟩
  · exact ⟨rfl, rfl, rfl⟩

/-- Until the coordinator joins its workers or gives up, it can send tasks. -/
theorem Steered.open_of_live (h : p.Steered) (hl : p.control.Live) (hc : p.control ≠ .joining) :
    p.tasksOpen = true := by
  cases ho : p.tasksOpen with
  | true => rfl
  | false =>
    rcases h.closed ho with hj | ⟨error, he⟩ | ⟨o, he⟩
    · exact absurd hj hc
    · rw [he] at hl
      exact hl.elim
    · rw [he] at hl
      exact hl.elim

/-- What a coordinator waits for in its loops. -/
theorem Steered.waits (h : p.Steered) (hpolls : p.control.Polls) :
    (p.phase = .running ∧ p.outstanding ≠ []) ∨
      (p.phase = .draining ∧ p.outstanding = [] ∧ p.dying.length < p.workers.length) := by
  rcases h.polling hpolls with hrunning | hdraining
  · exact .inl ⟨hrunning, h.awaiting hpolls hrunning⟩
  · exact .inr ⟨hdraining, h.emptied (h.going hpolls.live) (.inl hdraining), h.missing hpolls hdraining⟩

/-- Going round in its loops, the coordinator changes nothing but its place. -/
theorem Steered.goRound (h : p.Steered) (hp : p.control.Polls) {control : Control}
    (hpolls : control.Polls) : ({ p with control } : Pool σ).Steered :=
  .of_polls hpolls (h.going hp.live) (h.open_of_live hp.live fun hc => (hc ▸ hp : Control.joining.Polls))
    (h.waits hp)

theorem Steered.coordinator {r : Option Recording} (h : p.Steered) (hm : CoordinatorMove p r q) :
    q.Steered := by
  -- before the coordinator joins its workers the run goes on, and the pool is empty once it drains
  have hgoing (hl : p.control.Live) : p.cancel = false := h.going hl
  have hout (hl : p.control.Live) (hdraining : p.phase = .draining) : p.outstanding = [] :=
    h.emptied (h.going hl) (.inl hdraining)
  cases hm with
  -- gives the run up
  | readsFailure | rejects | cannotRefill | findsClosed | missesReport | cannotSend =>
    exact .abort _ _
  -- goes round
  | seesNoFailure at_control | fallsAsleep at_control | wakes at_control | checks at_control
  | findsNoFailure at_control | goesOn at_control =>
    exact h.goRound (by rw [at_control]; trivial) trivial
  -- takes a report
  | records at_control sent running found counted filled =>
    have hpolls : p.control.Polls := by rw [at_control]; trivial
    have hphase : p.phase = .running := (h.polling hpolls).resolve_right running
    have hopen := h.open_of_live hpolls.live (by simp [at_control])
    obtain ⟨hc, ho, hp⟩ := refill_phase filled
    exact .awaitBatches (hc.trans (hgoing hpolls.live)) (ho.trans hopen) (hp.trans hphase)
  | @notes worker reports at_control sent draining =>
    have hl : p.control.Live := by rw [at_control]; trivial
    have hopen := h.open_of_live hl (by simp [at_control])
    rcases noteDying_cases { p with reports } worker with ⟨hmissing, hq⟩ | ⟨hall, hq⟩
    · rw [hq]
      exact .of_polls trivial (hgoing hl) hopen (.inr ⟨draining, hout hl draining, hmissing⟩)
    · rw [hq]
      exact .of_draining (hgoing hl) draining (hout hl draining) (.inr ⟨rfl, rfl, hall⟩)
  -- sends the words to finish, and has sent them all
  | waitsForEnds at_control missing =>
    have hl : p.control.Live := by rw [at_control]; trivial
    have hopen := h.open_of_live hl (by simp [at_control])
    have hdraining := h.ending (.inr ⟨_, at_control⟩)
    exact .of_polls trivial (hgoing hl) hopen (.inr ⟨hdraining, hout hl hdraining, missing⟩)
  | hasAllEnds at_control hall =>
    have hl : p.control.Live := by rw [at_control]; trivial
    have hdraining := h.ending (.inr ⟨_, at_control⟩)
    exact .of_draining (hgoing hl) hdraining (hout hl hdraining) (.inr ⟨rfl, rfl, hall⟩)
  | sendsDone at_control =>
    have hl : p.control.Live := by rw [at_control]; trivial
    have hopen := h.open_of_live hl (by simp [at_control])
    have hdraining := h.ending (.inr ⟨_, at_control⟩)
    exact .of_draining (hgoing hl) hdraining (hout hl hdraining) (.inl ⟨⟨_, rfl⟩, hopen⟩)
  -- returns
  | joinsBadly at_control | joins at_control =>
    have hl : p.control.Live := by rw [at_control]; trivial
    have hdraining := h.ending (.inl at_control)
    exact .of_returned rfl (fun hcancel => nomatch (hgoing hl).symm.trans hcancel)
      (hout hl hdraining)
  | aborts => exact .of_returned rfl (fun _ => ⟨_, rfl⟩) rfl

end SeededRows.Pool
