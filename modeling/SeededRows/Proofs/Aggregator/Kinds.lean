/-
  SeededRows.Proofs.Aggregator.Kinds

  The stock aggregators, whoever makes them. They need the fields that they read, so of a row that
  has these fields none is missed; and what their reductions stop with is never a missing field.
-/
import SeededRows.Proofs.Aggregator.Tables

namespace SeededRows

variable {σ : Type}

namespace Aggregator

/-- The stock aggregators. The files of a table writer are a part of the state of its copies. -/
inductive IsStock : Aggregator σ → Prop
  | count : IsStock (count σ)
  | histogram (field : String) : IsStock (histogram σ field)
  | collect (fields : List String) : IsStock (collect σ fields)
  | matching (field : String) (target : Value) : IsStock (matching σ field target)
  | csvRows {get : σ → CsvFiles} {set : CsvFiles → σ → σ} (part : ∀ files s, get (set files s) = files)
      (disk : Disk) (target : CsvTarget) (fields : List String) :
      IsStock ((csvRows disk target fields).zoom get set)

variable {a : Aggregator σ} {row : Row} {s s' : σ} {stop : Stop}

/-- The aggregators that are described are stock aggregators. -/
theorem isStock_build (disk : Disk) (spec : AggregatorSpec) : (spec.build disk).IsStock := by
  cases spec with
  | count => exact .count
  | histogram field => exact .histogram field
  | collect fields => exact .collect fields
  | «matches» field value => exact .matching field (.text value)
  | csv dir fields stem => exact @IsStock.csvRows _ id (fun files _ => files) (fun _ _ => rfl) disk _ fields

/-- A row that has all of some fields has their values. -/
theorem exists_values {fields : List String} (h : ∀ field ∈ fields, (row.value? field).isSome = true) :
    ∃ vs, row.values? fields = some vs := by
  induction fields with
  | nil => exact ⟨[], rfl⟩
  | cons field fields ih =>
    obtain ⟨v, hv⟩ := Option.isSome_iff_exists.mp (h field List.mem_cons_self)
    obtain ⟨vs, hvs⟩ := ih fun f hf => h f (List.mem_cons_of_mem _ hf)
    rw [Row.values?_cons, hv, hvs]
    exact ⟨v :: vs, rfl⟩

theorem writeRow_unstarted {fields : List String} {vs : List Value} {s s' : CsvFiles}
    (hvs : row.values? fields = some vs) (h : writeRow fields row s = (.error stop, s')) :
    stop = .fault notStarted := by
  have hget : (get : Hook CsvFiles CsvFiles) s = (.ok s, s) := rfl
  rw [writeRow, Hook.bind_of_ok (fieldsOf_some hvs s), Hook.bind_of_ok hget] at h
  cases happend : s.append? (vs.map (·.cell)) with
  | some files =>
    rw [happend] at h
    cases h
  | none =>
    rw [happend] at h
    cases h
    rfl

/-- A row with all needed fields stops a stock aggregator only if it is a table writer that has no
table. -/
theorem IsStock.map_stop (h : a.IsStock)
    (hrow : ∀ field ∈ a.fieldsNeeded, (row.value? field).isSome = true)
    (hstop : a.map row s = (.error stop, s')) : stop = .fault notStarted := by
  cases h with
  | count => cases hstop
  | histogram field | matching field target =>
    obtain ⟨v, hv⟩ := Option.isSome_iff_exists.mp (hrow field List.mem_cons_self)
    cases (fieldOf_some hv s).symm.trans (Hook.stop_of_map hstop)
  | collect fields =>
    obtain ⟨vs, hvs⟩ := exists_values hrow
    cases (fieldsOf_some hvs s).symm.trans (Hook.stop_of_map hstop)
  | csvRows part disk target fields =>
    obtain ⟨vs, hvs⟩ := exists_values hrow
    exact writeRow_unstarted hvs (Hook.of_zoom part hstop)

/-- What the reductions of a stock aggregator stop with. -/
theorem IsStock.reduce_stop (h : a.IsStock) {acc v : a.output.Carrier}
    (hstop : a.reduce acc v s = (.error stop, s')) : stop.OfReduction := by
  cases h with
  | count => exact Hook.addCounts_stop hstop
  | histogram field => exact Histogram.addAll_stop hstop
  | collect fields => exact RowTable.addAll_stop hstop
  | matching field target => cases hstop
  | csvRows part disk target fields =>
    exact Hook.addCounts_stop (Hook.of_zoom part hstop)

/-! ## Batches -/

/-- Rows that are mapped without a result stop at one of them. -/
theorem mapOnto_stop {mapped : List a.output.Carrier} {rows : List Row} {t t' : Tracked σ}
    (h : a.mapOnto mapped rows t = (.error stop, t')) :
    ∃ row ∈ rows, ∃ s s', a.map row s = (.error stop, s') := by
  induction rows generalizing mapped t with
  | nil => cases h
  | cons row rows ih =>
    rcases hr : tracked .map (a.map row) t with ⟨stop' | v, t₁⟩
    · rw [mapOnto, Hook.bind_of_error hr] at h
      cases h
      exact ⟨row, List.mem_cons_self, _, _, of_tracked hr⟩
    · rw [mapOnto, Hook.bind_of_ok hr] at h
      obtain ⟨row', hrow', hstop⟩ := ih h
      exact ⟨row', List.mem_cons_of_mem _ hrow', hstop⟩

theorem reduceFrom_stop {acc : a.output.Carrier} {values : List a.output.Carrier} {t t' : Tracked σ}
    (h : a.reduceFrom acc values t = (.error stop, t')) :
    ∃ acc v s s', a.reduce acc v s = (.error stop, s') := by
  induction values generalizing acc t with
  | nil => cases h
  | cons v values ih =>
    rcases hr : tracked .reduce (a.reduce acc v) t with ⟨stop' | acc', t₁⟩
    · rw [reduceFrom, Hook.bind_of_error hr] at h
      cases h
      exact ⟨acc, v, _, _, of_tracked hr⟩
    · rw [reduceFrom, Hook.bind_of_ok hr] at h
      exact ih h

/-- A batch stops because it is empty, at one of its rows, or at a reduction. -/
theorem mapReduce_stop {rows : List Row} {t t' : Tracked σ}
    (h : a.mapReduce rows t = (.error stop, t')) :
    (∃ detail, stop = .fault (.emptyInput detail)) ∨
      (∃ row ∈ rows, ∃ s s', a.map row s = (.error stop, s')) ∨
      ∃ acc v s s', a.reduce acc v s = (.error stop, s') := by
  cases rows with
  | nil =>
    cases h
    exact .inl ⟨_, rfl⟩
  | cons row rows =>
    have hstep : a.mapReduce (row :: rows) t =
        (a.mapOnto [] (row :: rows) >>= fun mapped => a.reduceList mapped.reverse) t := rfl
    rw [hstep] at h
    rcases hmapped : a.mapOnto [] (row :: rows) t with ⟨stop' | mapped, t₁⟩
    · rw [Hook.bind_of_error hmapped] at h
      cases h
      exact .inr (.inl (mapOnto_stop hmapped))
    · rw [Hook.bind_of_ok hmapped] at h
      cases hvalues : mapped.reverse with
      | nil =>
        rw [hvalues] at h
        cases h
        exact .inl ⟨_, rfl⟩
      | cons v values =>
        rw [hvalues] at h
        exact .inr (.inr (reduceFrom_stop h))

/-- The two wordings differ in their first character. -/
theorem lacksField_ne_notStarted {aggregator field : String} : lacksField aggregator field row ≠ notStarted := by
  intro h
  rw [lacksField, notStarted, Fault.aggregator.injEq] at h
  have hfirst := congrArg (fun message => message.toList.head?) h.2
  simp [toString] at hfirst

/-- No stock aggregator misses a field in a batch of rows that have all the fields it needs. -/
theorem IsStock.not_lacksField {c : Copy σ} (h : c.aggregator.IsStock) {rows : List Row}
    (hrows : ∀ row ∈ rows, ∀ field ∈ c.aggregator.fieldsNeeded, (row.value? field).isSome = true)
    (hstop : (c.mapReduce rows).1 = .error stop) (name field : String) (row : Row) :
    stop ≠ .fault (lacksField name field row) := by
  rintro rfl
  have hany : c.aggregator.mapReduceAny rows c.toTracked =
      (.error (.fault (lacksField name field row)), (c.aggregator.mapReduceAny rows c.toTracked).2) :=
    Prod.ext hstop rfl
  have hbatch := Hook.stop_of_map hany
  rcases mapReduce_stop hbatch with ⟨detail, hempty⟩ | ⟨row', hrow', s, s', hmap⟩ | ⟨acc, v, s, s', hreduce⟩
  · cases hempty
  · have hunstarted := h.map_stop (hrows row' hrow') hmap
    exact lacksField_ne_notStarted (Stop.fault.inj hunstarted)
  · exact lacksField_not_ofReduction (h.reduce_stop hreduce)

end Aggregator

end SeededRows
