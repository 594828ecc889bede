/-
  SeededRows.Proofs.Aggregator.Tables

  What a copy of a table writer has in its files. A copy that was set up has one open table, which
  holds the names of the fields and a record of each row that the copy has mapped since, in this
  order; folding accumulators does not touch it, and tearing the copy down finishes it. The files may
  be a part of a larger state.
-/
import SeededRows.Proofs.Aggregator.Stock
import SeededRows.Proofs.Engine.Sessions

namespace SeededRows

variable {σ τ α : Type} {fields : List String} {rows : List Row} {files files' : CsvFiles}

/-! ## Records of rows -/

/-- What is written of a row, if it has all the fields. -/
def Row.record? (row : Row) (fields : List String) : Option (List String) :=
  (row.values? fields).map (·.map Value.cell)

theorem Row.length_values? {row : Row} {values : List Value} (h : row.values? fields = some values) :
    values.length = fields.length := by
  induction fields generalizing values with
  | nil =>
    cases h
    rfl
  | cons field fields ih =>
    rw [values?_cons] at h
    obtain ⟨v, -, h⟩ := Option.bind_eq_some_iff.mp h
    obtain ⟨rest, hrest, rfl⟩ := Option.map_eq_some_iff.mp h
    rw [List.length_cons, List.length_cons, ih hrest]

/-- A record has a cell for each field. -/
theorem Row.length_record? {row : Row} {record : List String} (h : row.record? fields = some record) :
    record.length = fields.length := by
  obtain ⟨values, hvalues, rfl⟩ := Option.map_eq_some_iff.mp h
  rw [List.length_map, length_values? hvalues]

/-! ## Files -/

namespace CsvFiles

/-- There is one file, which is open and holds the names of fields and the records of some rows. -/
def Writing (files : CsvFiles) (fields : List String) (rows : List Row) : Prop :=
  ∃ target records, files = ⟨[], some ⟨target, records ++ [fields]⟩, true⟩ ∧
    records.reverse.map some = rows.map (·.record? fields)

/-- There is one file, which is finished and holds the names of fields and the records of some
rows. -/
def Written (files : CsvFiles) (fields : List String) (rows : List Row) : Prop :=
  ∃ file records, files = ⟨[file], .none, true⟩ ∧ file.table = fields :: records ∧
    records.map some = rows.map (·.record? fields)

theorem Writing.finish (h : files.Writing fields rows) : files.finish.Written fields rows := by
  obtain ⟨target, records, rfl, hrecords⟩ := h
  refine ⟨⟨target, records ++ [fields]⟩, records.reverse, rfl, ?_, hrecords⟩
  rw [CsvFile.table, List.reverse_append, List.reverse_singleton, List.singleton_append]

end CsvFiles

namespace Aggregator

theorem writing_openCsv {disk : Disk} {target : CsvTarget}
    (h : openCsv disk target fields .none = (.ok (), files)) : files.Writing fields [] := by
  rw [openCsv] at h
  cases hp : target.problem? disk with
  | some problem =>
    rw [hp] at h
    cases h
  | none =>
    rw [hp] at h
    cases h
    exact ⟨target, [], rfl, rfl⟩

/-- Writing a row adds its record. -/
theorem writing_writeRow {row : Row} {n : Nat} (h : writeRow fields row files = (.ok n, files'))
    (hw : files.Writing fields rows) : files'.Writing fields (rows ++ [row]) := by
  obtain ⟨target, records, rfl, hrecords⟩ := hw
  cases hvs : row.values? fields with
  | none =>
    obtain ⟨field, hstop⟩ := fieldsOf_none (σ := CsvFiles) csvName hvs
      ⟨[], some ⟨target, records ++ [fields]⟩, true⟩
    rw [writeRow, Hook.bind_of_error hstop] at h
    cases h
  | some values =>
    rw [writeRow, Hook.bind_of_ok (fieldsOf_some hvs _)] at h
    cases h
    refine ⟨target, values.map Value.cell :: records, rfl, ?_⟩
    rw [List.reverse_cons, List.map_append, List.map_append, hrecords]
    simp [Row.record?, hvs]

theorem addCounts_state {m n : Nat} {s : σ} : (Hook.addCounts m n s).2 = s := by
  rw [Hook.addCounts]
  split <;> rfl

end Aggregator

/-! ## States that follow rows -/

namespace Aggregator

variable {a : Aggregator σ}

/-- What holds of the state of a copy by the rows that it has mapped: a fresh copy that was set up
has mapped none, each row that is mapped is one more, and folding accumulators changes nothing. -/
structure Follows (a : Aggregator σ) (P : List Row → σ → Prop) : Prop where
  start : ∀ {s s'}, a.start (a.copy s) = (.ok (), s') → P [] s'
  map : ∀ {rows row s v s'}, P rows s → a.map row s = (.ok v, s') → P (rows ++ [row]) s'
  reduce : ∀ {rows x y s v s'}, P rows s → a.reduce x y s = (.ok v, s') → P rows s'

variable {t t' : Tracked σ}

section

variable {P : σ → Prop} (hreduce : ∀ {x y s v s'}, P s → a.reduce x y s = (.ok v, s') → P s')

include hreduce

theorem kept_reduceFrom {acc v : a.output.Carrier} {values : List a.output.Carrier} (ht : P t.state)
    (h : a.reduceFrom acc values t = (.ok v, t')) : P t'.state := by
  induction values generalizing acc t with
  | nil =>
    cases h
    exact ht
  | cons w values ih =>
    obtain ⟨acc', t₁, htracked, hrest⟩ := Hook.bind_eq_ok h
    exact ih (hreduce ht (tracked_eq_ok htracked).1) hrest

theorem kept_reduceList {v : a.output.Carrier} {values : List a.output.Carrier} (ht : P t.state)
    (h : a.reduceList values t = (.ok v, t')) : P t'.state := by
  cases values with
  | nil => cases h
  | cons w values => exact kept_reduceFrom hreduce ht h

theorem kept_reduceAny {acc : Accumulator} {values : List Accumulator} (ht : P t.state)
    (h : a.reduceAny values t = (.ok acc, t')) : P t'.state := by
  rw [reduceAny] at h
  cases hall : Accumulator.allOf? a.output values with
  | none =>
    rw [hall] at h
    cases h
  | some vs =>
    rw [hall] at h
    obtain ⟨v, t₁, hfolded, hpure⟩ := Hook.bind_eq_ok h
    cases hpure
    exact kept_reduceList hreduce ht hfolded

end

variable {P : List Row → σ → Prop}

theorem Follows.mapOnto (h : a.Follows P) {before : List Row} {mapped all : List a.output.Carrier}
    (ht : P before t.state) (hr : a.mapOnto mapped rows t = (.ok all, t')) :
    P (before ++ rows) t'.state := by
  induction rows generalizing mapped before t with
  | nil =>
    cases hr
    rwa [List.append_nil]
  | cons row rows ih =>
    obtain ⟨v, t₁, htracked, hrest⟩ := Hook.bind_eq_ok hr
    have hnext := ih (h.map ht (tracked_eq_ok htracked).1) hrest
    rwa [List.append_assoc] at hnext

theorem Follows.mapReduceAny (h : a.Follows P) {before : List Row} {acc : Accumulator}
    (ht : P before t.state) (hr : a.mapReduceAny rows t = (.ok acc, t')) :
    P (before ++ rows) t'.state := by
  obtain ⟨v, t₁, hbatch, hpure⟩ := Hook.bind_eq_ok hr
  cases hpure
  cases rows with
  | nil => cases hbatch
  | cons row rows =>
    obtain ⟨mapped, t₁, hmapped, hfolded⟩ := Hook.bind_eq_ok hbatch
    exact kept_reduceList (P := P (before ++ row :: rows)) h.reduce (h.mapOnto ht hmapped) hfolded

end Aggregator

/-- A copy that was set up and fed groups of rows has followed them. -/
theorem Copy.Served.follows {given c : Copy σ} {groups : List (List Row)} {P : List Row → σ → Prop}
    (h : given.Served groups c) (hfollows : given.aggregator.Follows P) :
    P groups.reverse.flatten c.state := by
  induction h with
  | made start => exact hfollows.start (Aggregator.tracked_eq_ok (of_run start).1).1
  | @fed c c' groups rows acc before mapReduce ih =>
    rw [List.reverse_cons, List.flatten_append, List.flatten_singleton]
    refine Aggregator.Follows.mapReduceAny ?_ ih (of_run mapReduce).1
    rwa [before.aggregator]

/-! ## Table writers -/

/-- A hook on a part of a state leaves that part as it would alone. -/
theorem Hook.of_zoom {get : τ → σ} {set : σ → τ → τ} (hpart : ∀ s t, get (set s t) = s)
    {h : Hook σ α} {t t' : τ} {r : Except Stop α} (hr : h.zoom get set t = (r, t')) :
    h (get t) = (r, get t') := by
  rcases hs : h (get t) with ⟨r', s⟩
  rw [zoom, hs] at hr
  cases hr
  rw [hpart]

namespace Aggregator

/-- The aggregator writes tables of some fields, and its files are a part of its state. -/
def Writes (a : Aggregator σ) (get : σ → CsvFiles) (set : CsvFiles → σ → σ) (fields : List String) :
    Prop := ∃ disk target, a = (csvRows disk target fields).zoom get set

variable {a : Aggregator σ} {get : σ → CsvFiles} {set : CsvFiles → σ → σ}
  (hpart : ∀ files s, get (set files s) = files)

include hpart

/-- Folding accumulators leaves the files alone. -/
theorem Writes.reduce (h : a.Writes get set fields) {x y v : a.output.Carrier} {s s' : σ}
    (hr : a.reduce x y s = (.ok v, s')) : get s' = get s := by
  obtain ⟨disk, target, rfl⟩ := h
  have hadded := Hook.of_zoom hpart hr
  exact (congrArg Prod.snd hadded).symm.trans addCounts_state

/-- The open table follows the rows. -/
theorem Writes.follows (h : a.Writes get set fields) :
    a.Follows fun rows s => (get s).Writing fields rows := by
  refine ⟨?_, ?_, ?_⟩
  · intro s s' hr
    obtain ⟨disk, target, rfl⟩ := h
    have hopened := Hook.of_zoom hpart hr
    have hfresh : get (((csvRows disk target fields).zoom get set).copy s) = .none := hpart _ _
    rw [hfresh] at hopened
    exact writing_openCsv hopened
  · intro rows row s v s' hs hr
    obtain ⟨disk, target, rfl⟩ := h
    exact writing_writeRow (Hook.of_zoom hpart hr) hs
  · intro rows x y s v s' hs hr
    rwa [h.reduce hpart hr]

/-- What a copy that was torn down has written. -/
theorem Writes.written {given c : Copy σ} {groups : List (List Row)}
    (h : given.aggregator.Writes get set fields) (hc : given.Retired groups c) :
    (get c.state).Written fields groups.reverse.flatten := by
  obtain ⟨served, hserved, hdone⟩ := hc
  have hwriting := hserved.follows (h.follows hpart)
  have hsame := hserved.aggregator
  obtain ⟨disk, target, hwrites⟩ := h
  rw [hwrites] at hsame
  have hfinish := (tracked_eq_ok (Copy.of_run hdone).1).1
  rw [hsame] at hfinish
  have hfiles : (get served.state).finish = get c.state :=
    congrArg Prod.snd (Hook.of_zoom hpart hfinish)
  rw [← hfiles]
  exact hwriting.finish

end Aggregator

end SeededRows
