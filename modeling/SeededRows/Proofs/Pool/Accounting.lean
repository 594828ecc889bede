/-
  SeededRows.Proofs.Pool.Accounting

  Where the batches of a run are. A batch that was handed out is in the queue of tasks, with a
  worker, or in a report that was not read; moves of workers only carry it from one of these
  places to the next. The coordinator adds a batch to the queue when it hands one out and takes
  one off the reports when it records it, and the list of outstanding batches says at any time
  which ones are under way. Names of batches stand for the batches: no two have the same.
-/
import Mathlib.Data.List.Perm.Basic
import SeededRows.Proofs.Pool.Control
import SeededRows.Proofs.RowIds.Batches

namespace SeededRows.Pool

variable {σ : Type} {setup : Setup σ} {p q : Pool σ}

/-! ## Places -/

/-- The name of the batch that a report brings back. -/
def Report.batchId? : Report → Option BatchId
  | .generated id .. => some id
  | .dying _ => none

/-- The batches that no worker has taken. -/
def queued (p : Pool σ) : List Batch := p.tasks.filterMap Task.batch?

/-- The batches that workers hold, or held when they failed. -/
def held (p : Pool σ) : List Batch := p.workers.filterMap fun w => w.stage.batch?

/-- The names of the batches in reports that were not read. -/
def reported (p : Pool σ) : List BatchId := p.reports.filterMap Report.batchId?

/-- The names of the batches that are under way. -/
def underway (p : Pool σ) : List BatchId :=
  p.queued.map Batch.id ++ p.held.map Batch.id ++ p.reported

/-! ## Moves of workers carry batches on -/

/-- What is collected of a list whose element in a place is replaced. -/
theorem filterMap_set_perm {α β : Type} (f : α → Option β) {l : List α} {i : Nat} {a : α}
    (h : l[i]? = some a) (a' : α) :
    ((l.set i a').filterMap f).Perm ((f a').toList ++ (l.eraseIdx i).filterMap f) := by
  obtain ⟨hi, -⟩ := List.getElem?_eq_some_iff.mp h
  have hi' : i < (l.set i a').length := by rwa [List.length_set]
  have hperm := (List.getElem_cons_eraseIdx_perm hi').filterMap f
  rw [List.getElem_set_self, List.eraseIdx_set_eq] at hperm
  refine hperm.symm.trans ?_
  cases hf : f a' with
  | none => rw [List.filterMap_cons_none hf]; exact .refl _
  | some b => rw [List.filterMap_cons_some hf]; exact .refl _

/-- How a move of a worker carries batches: not at all, off the queue, or into a report. -/
inductive Carries (p q : Pool σ) (w w' : Worker σ) : Prop
  | nothing (tasks : q.tasks = p.tasks) (reports : q.reported = p.reported)
      (holds : w'.stage.batch? = w.stage.batch?)
  | offQueue {task : Task} (tasks : p.tasks = task :: q.tasks) (reports : q.reported = p.reported)
      (free : w.stage.batch? = none) (holds : w'.stage.batch? = task.batch?)
  | intoReport {b : Batch} (tasks : q.tasks = p.tasks) (reports : q.reported = p.reported ++ [b.id])
      (held : w.stage.batch? = some b) (free : w'.stage.batch? = none)

theorem WorkerMove.carries {id : Nat} {w : Worker σ} {s : Option Stop}
    (hm : WorkerMove setup p id w s q) :
    ∃ w', q.workers = p.workers.set id w' ∧ Carries p q w w' := by
  cases hm with
  | takes at_stage queued =>
    exact ⟨_, rfl, .offQueue queued rfl (by rw [at_stage]; rfl) rfl⟩
  | reports at_stage =>
    refine ⟨_, rfl, .intoReport rfl ?_ (by rw [at_stage]; rfl) rfl⟩
    simp only [reported, send, setWorker, List.filterMap_append]
    rfl
  | finishes at_stage =>
    refine ⟨_, rfl, .nothing rfl ?_ (by rw [at_stage]; rfl)⟩
    simp only [reported, send, setWorker, List.filterMap_append]
    rw [List.filterMap_cons_none rfl, List.filterMap_nil, List.append_nil]
  | @isCancelled task at_stage =>
    refine ⟨_, rfl, .nothing rfl rfl ?_⟩
    rw [at_stage]
    cases task <;> rfl
  | begins at_stage => exact ⟨_, rfl, .nothing rfl rfl (by rw [at_stage]; rfl)⟩
  | cannotBegin at_stage => exact ⟨_, rfl, .nothing rfl rfl (by rw [at_stage]; rfl)⟩
  | locks at_stage => exact ⟨_, rfl, .nothing rfl rfl (by rw [at_stage]; rfl)⟩
  | findsClosed at_stage => exact ⟨_, rfl, .nothing rfl rfl (by rw [at_stage]; rfl)⟩
  | accepts at_stage => exact ⟨_, rfl, .nothing rfl rfl (by rw [at_stage]; rfl)⟩
  | windsUp at_stage => exact ⟨_, rfl, .nothing rfl rfl (by rw [at_stage]; rfl)⟩
  | missesEnd at_stage => exact ⟨_, rfl, .nothing rfl rfl (by rw [at_stage]; rfl)⟩
  | stopsWorking at_stage => exact ⟨_, rfl, .nothing rfl rfl (by rw [at_stage]; rfl)⟩
  | givesUp at_stage => exact ⟨_, rfl, .nothing rfl rfl (by rw [at_stage]; rfl)⟩
  | idles => exact ⟨_, rfl, .nothing rfl rfl rfl⟩
  | cannotFinish at_stage => exact ⟨_, rfl, .nothing rfl rfl (by rw [at_stage]; rfl)⟩
  | tells at_stage => exact ⟨_, rfl, .nothing rfl rfl (by rw [at_stage]; rfl)⟩
  | cleansUp at_stage => exact ⟨_, rfl, .nothing rfl rfl (by rw [at_stage]; rfl)⟩
  | leaves at_stage => exact ⟨_, rfl, .nothing rfl rfl (by rw [at_stage]; rfl)⟩

/-- The batches that a move of a worker finds under way are those it leaves under way. -/
theorem WorkerMove.underway {id : Nat} {w : Worker σ} {s : Option Stop}
    (hw : p.workers[id]? = some w) (hm : WorkerMove setup p id w s q) :
    q.underway.Perm p.underway := by
  obtain ⟨w', hworkers, hcarries⟩ := hm.carries
  have hq := filterMap_set_perm (fun w : Worker σ => w.stage.batch?) hw w'
  have hp := filterMap_set_perm (fun w : Worker σ => w.stage.batch?) hw w
  obtain ⟨hi, hself⟩ := List.getElem?_eq_some_iff.mp hw
  -- the workers before and after are the same but for the one that moved
  rw [← hworkers] at hq
  rw [← hself, List.set_getElem_self, hself] at hp
  have hq' := hq.map Batch.id
  have hp' := hp.map Batch.id
  rw [List.perm_iff_count] at hq' hp' ⊢
  -- how often each name is under way, place by place
  intro x
  have hqx := hq' x
  have hpx := hp' x
  simp only [Pool.underway, Pool.held, queued, List.count_append]
  simp only [List.map_append, List.count_append] at hqx hpx
  cases hcarries with
  | nothing tasks reports holds =>
    rw [tasks, reports]
    rw [holds] at hqx
    omega
  | @offQueue task tasks reports free holds =>
    rw [tasks, reports]
    rw [holds] at hqx
    rw [free] at hpx
    cases ht : task.batch? with
    | none =>
      rw [ht] at hqx
      rw [List.filterMap_cons_none ht]
      simp only [Option.toList_none, List.map_nil, List.count_nil] at hqx hpx
      omega
    | some b =>
      rw [ht] at hqx
      rw [List.filterMap_cons_some ht, List.map_cons, List.count_cons]
      simp only [Option.toList_none, Option.toList_some, List.map_nil, List.map_cons, List.count_nil,
        List.count_cons] at hqx hpx
      omega
  | intoReport tasks reports holds free =>
    rw [tasks, reports, List.count_append]
    rw [free] at hqx
    rw [holds] at hpx
    simp only [Option.toList_none, Option.toList_some, List.map_nil, List.map_cons, List.count_nil]
      at hqx hpx
    omega

/-- A move of a worker gets no batch into the queue or to a worker that was at neither before. -/
theorem WorkerMove.mem_queued_or_held {id : Nat} {w : Worker σ} {s : Option Stop} {b : Batch}
    (hw : p.workers[id]? = some w) (hm : WorkerMove setup p id w s q)
    (hb : b ∈ q.queued ∨ b ∈ q.held) : b ∈ p.queued ∨ b ∈ p.held := by
  obtain ⟨w', hworkers, hcarries⟩ := hm.carries
  have hwmem : w ∈ p.workers := List.mem_of_getElem? hw
  rcases hb with hb | hb
  -- the queue only gets shorter
  · left
    cases hcarries with
    | nothing tasks | intoReport tasks => rwa [queued, tasks] at hb
    | offQueue tasks =>
      rw [queued, List.mem_filterMap] at hb ⊢
      obtain ⟨task, htask, hb⟩ := hb
      exact ⟨task, by rw [tasks]; exact List.mem_cons_of_mem _ htask, hb⟩
  · rw [held, hworkers, List.mem_filterMap] at hb
    obtain ⟨v, hv, hb⟩ := hb
    rcases List.mem_or_eq_of_mem_set hv with hv | rfl
    · exact .inr (List.mem_filterMap.mpr ⟨v, hv, hb⟩)
    -- what the worker holds now it held before, or it has just taken it
    · cases hcarries with
      | nothing tasks reports holds => exact .inr (List.mem_filterMap.mpr ⟨w, hwmem, holds ▸ hb⟩)
      | @offQueue task tasks reports free holds =>
        refine .inl (List.mem_filterMap.mpr ⟨task, ?_, holds ▸ hb⟩)
        rw [tasks]
        exact List.mem_cons_self
      | intoReport tasks reports held free =>
        rw [free] at hb
        cases hb

/-! ## The account -/

/-- The account of a run over its batches, as long as it is not given up: which ones were handed
out, what is known of those, and how many rows are still to come. -/
structure Accounted (all : List Batch) (recs : List Recording) (unpulled : List Batch) (p : Pool σ) :
    Prop where
  /-- Every batch is in one place. -/
  places : (unpulled.map Batch.id ++ p.underway ++ recs.map Recording.id).Perm (all.map Batch.id)
  /-- The outstanding batches are those under way. -/
  keys : (p.outstanding.map Prod.fst).Perm p.underway
  /-- The rows of the batches to come, of those under way and of those recorded are all rows. -/
  rows : (unpulled.map Batch.size).sum + (p.outstanding.map Prod.snd).sum + p.progress.rows =
    (all.map Batch.size).sum
  known : ∀ b, b ∈ unpulled ∨ b ∈ p.queued ∨ b ∈ p.held → b ∈ all

namespace Accounted

variable {all unpulled : List Batch} {recs : List Recording}

theorem names_nodup (h : Accounted all recs unpulled p) (hall : (all.map Batch.id).Nodup) :
    (unpulled.map Batch.id ++ p.underway).Nodup :=
  ((h.places.nodup_iff.mpr hall).sublist (List.sublist_append_left _ _))

theorem keys_nodup (h : Accounted all recs unpulled p) (hall : (all.map Batch.id).Nodup) :
    (p.outstanding.map Prod.fst).Nodup :=
  h.keys.nodup_iff.mpr (List.nodup_append.mp (h.names_nodup hall)).2.1

theorem worker {id : Nat} {w : Worker σ} {s : Option Stop} (h : Accounted all recs unpulled p)
    (hw : p.workers[id]? = some w) (hm : WorkerMove setup p id w s q) :
    Accounted all recs unpulled q := by
  have hs := hm.sameCoordinator
  have hunderway := hm.underway hw
  refine ⟨?_, ?_, ?_, ?_⟩
  · exact ((hunderway.append_left _).append_right _).trans h.places
  · rw [hs.outstanding]
    exact h.keys.trans hunderway.symm
  · rw [hs.outstanding, hs.progress]
    exact h.rows
  · intro b hb
    rcases hb with hb | hb
    · exact h.known b (.inl hb)
    · exact h.known b (.inr (hm.mem_queued_or_held hw hb))

/-- A batch that was not handed out is not outstanding, so handing it out replaces no entry. -/
theorem dispatch_outstanding {b : Batch} (h : Accounted all recs (b :: unpulled) p)
    (hall : (all.map Batch.id).Nodup) :
    (p.dispatch b).outstanding = (b.id, b.size) :: p.outstanding := by
  have hnodup := h.names_nodup hall
  rw [List.map_cons, List.cons_append, List.nodup_cons] at hnodup
  have hfilter : p.outstanding.filter (·.1 ≠ b.id) = p.outstanding := by
    rw [List.filter_eq_self]
    -- what is outstanding is under way, and the batch that comes next is not
    intro e he
    have hmem : e.1 ∈ p.underway := h.keys.mem_iff.mp (List.mem_map_of_mem he)
    have hne : e.1 ≠ b.id := fun heq => hnodup.1 (List.mem_append_right _ (heq ▸ hmem))
    exact decide_eq_true hne
  rw [dispatch, hfilter]

/-- Handing out the next batch. -/
theorem dispatch {b : Batch} (h : Accounted all recs (b :: unpulled) p)
    (hall : (all.map Batch.id).Nodup) : Accounted all recs unpulled (p.dispatch b) := by
  have hout := h.dispatch_outstanding hall
  have hqueued : (p.dispatch b).queued = p.queued ++ [b] := by
    rw [queued, queued, Pool.dispatch, List.filterMap_append]
    rfl
  have hunderway : (p.dispatch b).underway.Perm (b.id :: p.underway) := by
    rw [underway, hqueued, List.map_append, List.perm_iff_count]
    intro x
    simp only [underway, List.count_append, List.count_cons, List.map_cons, List.map_nil,
      List.count_nil]
    show _ + (p.held.map Batch.id).count x + p.reported.count x = _
    omega
  refine ⟨?_, ?_, ?_, ?_⟩
  · refine List.Perm.trans ?_ h.places
    rw [List.map_cons, List.cons_append]
    refine List.Perm.append_right _ ((hunderway.append_left _).trans ?_)
    exact List.perm_middle
  · rw [hout, List.map_cons]
    exact (h.keys.cons _).trans hunderway.symm
  · have hrows := h.rows
    rw [hout]
    simp only [List.map_cons, List.sum_cons] at hrows ⊢
    show _ + _ + p.progress.rows = _
    omega
  · intro b' hb'
    rw [hqueued, List.mem_append, List.mem_singleton] at hb'
    rcases hb' with hb' | (hb' | rfl) | hb'
    · exact h.known b' (.inl (List.mem_cons_of_mem _ hb'))
    · exact h.known b' (.inr (.inl hb'))
    · exact h.known b' (.inl List.mem_cons_self)
    · exact h.known b' (.inr (.inr hb'))

theorem dispatchAll {first : List Batch} (hall : (all.map Batch.id).Nodup) :
    ∀ {p : Pool σ}, Accounted all recs (first ++ unpulled) p →
      Accounted all recs unpulled (first.foldl Pool.dispatch p) := by
  induction first with
  | nil => exact fun h => h
  | cons b first ih => exact fun h => ih (h.dispatch hall)

end Accounted

/-- The entry of an outstanding batch, and the others. -/
theorem outstanding_perm {outstanding : List (BatchId × Nat)} {id : BatchId} {rows : Nat}
    (hnodup : (outstanding.map Prod.fst).Nodup) (h : outstanding.lookup id = some rows) :
    outstanding.Perm ((id, rows) :: outstanding.filter (·.1 ≠ id)) := by
  obtain ⟨before, after, rfl, -⟩ := List.lookup_eq_some_iff.mp h
  rw [List.map_append, List.map_cons, List.nodup_middle, List.nodup_cons, List.mem_append] at hnodup
  -- no other entry has the same name
  have hothers : ∀ e ∈ before ++ after, decide (e.1 ≠ id) = true := by
    intro e he
    have hmem : e.1 ∈ (before ++ after).map Prod.fst := List.mem_map_of_mem he
    rw [List.map_append, List.mem_append] at hmem
    exact decide_eq_true fun heq => hnodup.1 (heq ▸ hmem)
  have hfilter : (before ++ (id, rows) :: after).filter (·.1 ≠ id) = before ++ after := by
    rw [List.filter_append, List.filter_cons_of_neg (by simp), ← List.filter_append]
    exact List.filter_eq_self.mpr hothers
  rw [hfilter]
  exact List.perm_middle

namespace Accounted

variable {all unpulled : List Batch} {recs : List Recording}

/-- A report of an outstanding batch is recorded. -/
theorem recorded {r : Recording} {reports : List Report} {rows : Nat}
    (h : Accounted all recs unpulled p) (hall : (all.map Batch.id).Nodup)
    (hlimit : (all.map Batch.size).sum ≤ Progress.limit)
    (sent : p.reports = .generated r.id r.worker r.results :: reports)
    (found : p.outstanding.lookup r.id = some rows) :
    Accounted all (r :: recs) unpulled (p.recorded reports r rows) := by
  have hperm := outstanding_perm (h.keys_nodup hall) found
  have hunderway : p.underway.Perm (r.id :: (p.recorded reports r rows).underway) := by
    have hreported : p.reported = r.id :: reports.filterMap Report.batchId? := by
      rw [reported, sent]
      rfl
    rw [underway, hreported]
    exact List.perm_middle
  -- names and sizes of the outstanding batches, with the recorded one taken out
  have hkeys := hperm.map Prod.fst
  have hsizes := (hperm.map Prod.snd).sum_nat
  rw [List.map_cons] at hkeys
  simp only [List.map_cons, List.sum_cons] at hsizes
  have hrows := h.rows
  refine ⟨?_, ?_, ?_, ?_⟩
  · refine List.Perm.trans ?_ h.places
    rw [List.map_cons]
    refine List.perm_middle.trans ?_
    rw [← List.cons_append]
    refine List.Perm.append_right _ (List.perm_middle.symm.trans ?_)
    exact hunderway.symm.append_left _
  · exact (hkeys.symm.trans (h.keys.trans hunderway)).cons_inv
  · show _ + ((p.outstanding.filter (·.1 ≠ r.id)).map Prod.snd).sum +
      min (p.progress.rows + rows) Progress.limit = _
    omega
  · exact h.known

end Accounted

end SeededRows.Pool
