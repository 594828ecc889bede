/-
  SeededRows.Proofs.Coordinator.Tables

  The tables that a run writes. In a run that ends well every worker leaves one finished file for each
  table writer; it reads back as the names of the fields and a record for each row of the worker's
  batches. The batches are shared out among the workers, so the files together hold one record for
  each row of the run. The coordinator's own copies write nothing.
-/
import SeededRows.Proofs.Aggregator.Tables
import SeededRows.Proofs.Coordinator.Places
import SeededRows.Proofs.Csv.RoundTrip
import SeededRows.Proofs.Csv.Target

namespace SeededRows

variable {σ : Type}

/-- A file that was finished reads back as the names of its fields and its records. -/
theorem CsvFiles.Written.decode {files : CsvFiles} {fields : List String} {rows : List Row}
    (h : files.Written fields rows) (hfields : fields ≠ []) :
    ∃ file table, files = ⟨[file], .none, true⟩ ∧ Csv.decode file.text = some (fields :: table) ∧
      (∀ record ∈ table, record.length = fields.length) ∧
      table.map some = rows.map (·.record? fields) := by
  obtain ⟨file, table, hfiles, htable, hrecords⟩ := h
  have hlengths : ∀ record ∈ table, record.length = fields.length := by
    intro record hrecord
    have hsome : some record ∈ rows.map (·.record? fields) :=
      hrecords ▸ List.mem_map_of_mem hrecord
    obtain ⟨row, -, hrow⟩ := List.mem_map.mp hsome
    exact Row.length_record? hrow
  refine ⟨file, table, hfiles, ?_, hlengths, hrecords⟩
  rw [CsvFile.text, htable]
  apply Csv.decode_render
  intro record hrecord
  rcases List.mem_cons.mp hrecord with rfl | hrecord
  · exact hfields
  · rintro rfl
    exact hfields (List.length_eq_zero_iff.mp (hlengths [] hrecord).symm)

namespace Coordinator

variable {c : Coordinator σ} {entropy : Entropy} {settle : Pool.Settling σ} {place : Nat}
  {get : σ → CsvFiles} {set : CsvFiles → σ → σ} {fields : List String}

/-! ## Workers -/

/-- All workers are given a writer of tables of these fields, perhaps with different targets and disks,
and draw the same fields as the coordinator has it. -/
structure Tabulates (c : Coordinator σ) (entropy : Entropy) (settle : Pool.Settling σ) (place : Nat)
    (get : σ → CsvFiles) (set : CsvFiles → σ → σ) (fields : List String) : Prop where
  part : ∀ files s, get (set files s) = files
  own : ∃ configured, c.configured[place]? = some configured ∧
    configured.aggregator.Writes get set fields
  given : ∀ worker given, (c.givenTo entropy settle worker)[place]? = some given →
    given.aggregator.Writes get set fields
  needed : ∀ worker, (c.givenTo entropy settle worker).map (·.aggregator.fieldsNeeded) =
    c.configured.map (·.aggregator.fieldsNeeded)

/-- What workers meet outside does not matter if it is the same for all. -/
theorem tabulates_alike (hpart : ∀ files s, get (set files s) = files)
    {configured : Copy σ} (hconfigured : c.configured[place]? = some configured)
    (hwrites : configured.aggregator.Writes get set fields) :
    c.Tabulates entropy .alike place get set fields := by
  have hassigns : c.Assigns entropy .alike place configured.aggregator := assigns_alike hconfigured
  refine ⟨hpart, ⟨configured, hconfigured, hwrites⟩, ?_, hassigns.needed⟩
  intro worker given hgiven
  rw [hassigns.given worker given hgiven]
  exact hwrites

variable {drawn : List String} {share : List WorkedBatch} {shares : List (List WorkedBatch)} {copy : Copy σ}
  {copies : List (Copy σ)}

/-- The specs of the rows of a share. -/
def specsOf (share : List WorkedBatch) : List RowSpec := share.flatMap fun made => made.batch.rows

/-- The file of a worker after its share. -/
theorem Fed.table (h : c.Fed entropy settle place share copy)
    (ht : c.Tabulates entropy settle place get set fields) (hfields : fields ≠ [])
    (hdrawn : selectFields c.order c.configured = .ok drawn) :
    (∀ spec ∈ specsOf share,
      drawRow c.order drawn entropy spec = .ok (rowOf c.order drawn entropy spec)) ∧
    ∃ file table, get copy.state = ⟨[file], .none, true⟩ ∧
      Csv.decode file.text = some (fields :: table) ∧
      (∀ record ∈ table, record.length = fields.length) ∧
      (table.map some).Perm
        ((specsOf share).map fun spec => (rowOf c.order drawn entropy spec).record? fields) := by
  obtain ⟨worker, given, drawn', hgiven, hselected, hrows, hretired⟩ := h
  obtain rfl : drawn' = drawn := by
    rw [selectFields_congr (ht.needed worker)] at hselected
    exact Except.ok.inj (hselected.symm.trans hdrawn)
  refine ⟨?_, ?_⟩
  · intro spec hspec
    obtain ⟨made, hmade, hspec⟩ := List.mem_flatMap.mp hspec
    exact hrows made hmade spec hspec
  · obtain ⟨file, table, hfiles, hdecode, hlengths, hrecords⟩ :=
      ((ht.given worker given hgiven).written ht.part hretired).decode hfields
    refine ⟨file, table, hfiles, hdecode, hlengths, ?_⟩
    have hflatten : (Engine.groupsOf c.order drawn' entropy share).flatten =
        (specsOf share).map (rowOf c.order drawn' entropy) := by
      rw [specsOf, List.map_flatMap, List.flatMap_def]
      rfl
    have hperm := (List.reverse_perm (Engine.groupsOf c.order drawn' entropy share)).flatten
    rw [hflatten] at hperm
    have hmapped := hperm.map fun row => row.record? fields
    rw [List.map_map] at hmapped
    rwa [hrecords]

/-- The files of all workers. -/
theorem tables_of_fed (h : List.Forall₂ (c.Fed entropy settle place) shares copies)
    (ht : c.Tabulates entropy settle place get set fields) (hfields : fields ≠ [])
    (hdrawn : selectFields c.order c.configured = .ok drawn) :
    (∀ spec ∈ specsOf shares.flatten,
      drawRow c.order drawn entropy spec = .ok (rowOf c.order drawn entropy spec)) ∧
    ∃ files tables, copies.map (fun copy => get copy.state) =
        files.map (fun file => ⟨[file], .none, true⟩) ∧
      List.Forall₂ (fun file table => Csv.decode file.text = some (fields :: table) ∧
        ∀ record ∈ table, record.length = fields.length) files tables ∧
      (tables.flatten.map some).Perm ((specsOf shares.flatten).map fun spec =>
        (rowOf c.order drawn entropy spec).record? fields) := by
  induction h with
  | nil =>
    refine ⟨?_, [], [], rfl, .nil, .nil⟩
    intro spec hspec
    cases hspec
  | cons hfirst _ ih =>
    obtain ⟨hrows, file, table, hfile, hdecode, hlengths, hrecords⟩ := hfirst.table ht hfields hdrawn
    obtain ⟨hallRows, files, tables, hfiles, hall, hallRecords⟩ := ih
    refine ⟨?_, file :: files, table :: tables, ?_, .cons ⟨hdecode, hlengths⟩ hall, ?_⟩
    · intro spec hspec
      rw [specsOf, List.flatten_cons, List.flatMap_append] at hspec
      rcases List.mem_append.mp hspec with hspec | hspec
      · exact hrows spec hspec
      · exact hallRows spec hspec
    · rw [List.map_cons, List.map_cons, hfile, hfiles]
    · rw [specsOf, List.flatten_cons, List.flatten_cons, List.flatMap_append, List.map_append,
        List.map_append]
      exact hrecords.append hallRecords

/-! ## Runs -/

variable {settings : Settings} {order : FieldOrder} {configured : List (Copy σ)} {ids : Random.Source}
  {run : Run σ} {results : Results}

/-- In every run that ends well, on the calling thread or on a pool, in whatever order workers and
coordinator move, a table writer leaves one file for each worker and none for the coordinator. The text
of each file reads back as the names of the fields and then records of as many cells; all records of
all files together are the cell texts of each row of the run, once for each row. -/
theorem tables_partition_rows (hc : ofSettings settings order configured = .ok c)
    (ht : c.Tabulates entropy settle place get set fields) (hfields : fields ≠ [])
    {schedule : Nat → Pool.Move} {moves : Nat}
    (hrun : c.startAmid ids entropy settle schedule moves = run)
    (hfinished : run.ending = .finished results) :
    ∃ rows drawn, settings.rowStream ids = .ok rows ∧ rows.toList.length = settings.rows ∧
      selectFields order configured = .ok drawn ∧
      (∀ spec ∈ rows.toList,
        drawRow order drawn entropy spec = .ok (rowOf order drawn entropy spec)) ∧
      (∃ given own, configured[place]? = some given ∧
        run.coordinator.configured[place]? = some own ∧ get own.state = get given.state) ∧
      ∃ files tables, (run.copiesAt place).map (fun copy => get copy.state) =
          files.map (fun file => ⟨[file], .none, true⟩) ∧
        files.length = settings.workers ∧
        List.Forall₂ (fun file table => Csv.decode file.text = some (fields :: table) ∧
          ∀ record ∈ table, record.length = fields.length) files tables ∧
        (tables.flatten.map some).Perm (rows.toList.map fun spec =>
          (rowOf order drawn entropy spec).record? fields) := by
  obtain ⟨rows, all, hrows, hcount, hload, hflat, -, -⟩ := workload_of_accepted hc ids
  obtain ⟨-, ⟨drawn, hdrawn⟩, rfl⟩ := ofSettings_eq_ok hc
  obtain ⟨given, hgiven, hwrites⟩ := ht.own
  obtain ⟨hplace, rfl⟩ := List.getElem?_eq_some_iff.mp hgiven
  have hdivides : Breaks _ run ∨ ∃ shares tally, Divides _ entropy settle all shares tally run :=
    hrun ▸ startAmid_divides hc hrows hload hflat schedule moves
  rcases hdivides with hbreaks | ⟨shares, tally, hdivides⟩
  · exact absurd hfinished (hbreaks.unfinished results)
  obtain ⟨hspecs, files, tables, hfiles, hall, hrecords⟩ :=
    tables_of_fed (hdivides.fed hplace) ht hfields hdrawn
  -- the shares hold the rows of the run
  have hperm : (specsOf shares.flatten).Perm rows.toList := by
    have hbatches := hdivides.divided.flatMap_right Batch.rows
    rwa [hflat, List.flatMap_map] at hbatches
  have hlength : files.length = settings.workers := by
    have heq := congrArg List.length hfiles
    rw [List.length_map, List.length_map, ← (hdivides.fed hplace).length_eq, hdivides.staffed] at heq
    exact heq.symm
  obtain ⟨column, acc, own, -, hown, -, hreduce⟩ := hdivides.reduced hfinished hplace
  have hkept : get own.state = get configured[place].state :=
    Aggregator.kept_reduceAny (P := fun s => get s = get configured[place].state)
      (fun hs hr => (hwrites.reduce ht.part hr).trans hs) rfl (Copy.of_run hreduce).1
  refine ⟨rows, drawn, hrows, hcount, hdrawn, ?_,
    ⟨_, own, hgiven, hown, hkept⟩, files, tables, hfiles, hlength, hall, ?_⟩
  · intro spec hspec
    exact hspecs spec (hperm.mem_iff.mpr hspec)
  · exact hrecords.trans (hperm.map _)

/-- What two workers write of a row. -/
def quotedFields : List String := ["id", "said, if any"]

/-- Two workers that write a row with a quotation, under a name with a comma. -/
def quotingPair : Coordinator CsvFiles :=
  ⟨pairSettings, ⟨[("said, if any", fun _ => pure (.text "\"yes\",\nand no"))]⟩,
    [.fresh (.csvRows [] ⟨"", "rows"⟩ quotedFields) .none], .filling⟩

/-- Their files can be made, so their run ends well. -/
theorem quotingPair_finishes : ∃ results, (quotingPair.startAmid (.ofSeed 0) (fun _ => .ofSeed 0)
    .alike (Pool.rounds 2) 47).ending = .finished results := by
  have hproblem : (CsvTarget.mk "" "rows").problem? [] = none :=
    CsvTarget.problem?_of_plain (by simp [CsvTarget.fileName, CsvTarget.sampleId])
      (by simp [CsvTarget.fileName, CsvTarget.sampleId]) (by decide) []
  have hopen : Aggregator.openCsv [] ⟨"", "rows"⟩ quotedFields =
      modify (·.begin ⟨"", "rows"⟩ quotedFields) := by
    rw [Aggregator.openCsv, hproblem]
  have hwriter : Aggregator.csvRows [] ⟨"", "rows"⟩ quotedFields =
      { Aggregator.csvRows [] ⟨"", "rows"⟩ quotedFields with
        start := modify (·.begin ⟨"", "rows"⟩ quotedFields) } := by
    rw [← hopen]
    rfl
  rw [quotingPair, hwriter]
  exact ⟨_, rfl⟩

/-- The two files of a pair of workers read back; the only row is in one of them. -/
theorem tables_partition_rows_quoting : ∃ run files tables,
    quotingPair.startAmid (.ofSeed 0) (fun _ => .ofSeed 0) .alike (Pool.rounds 2) 47 = run ∧
      (run.copiesAt 0).map (fun copy => copy.state) =
        files.map (fun file => (⟨[file], .none, true⟩ : CsvFiles)) ∧
      files.length = 2 ∧
      List.Forall₂ (fun (file : CsvFile) table =>
        Csv.decode file.text = some (quotedFields :: table) ∧
          ∀ record ∈ table, record.length = 2) files tables ∧
      tables.flatten = [["0", "\"yes\",\nand no"]] := by
  have hc : ofSettings pairSettings quotingPair.order quotingPair.configured = .ok quotingPair := rfl
  have hpart : ∀ files s : CsvFiles, id ((fun files _ => files) files s) = files := fun _ _ => rfl
  have ht : quotingPair.Tabulates (fun _ => .ofSeed 0) .alike 0 id (fun files _ => files)
      quotedFields := tabulates_alike hpart rfl ⟨[], ⟨"", "rows"⟩, rfl⟩
  obtain ⟨results, hfinished⟩ := quotingPair_finishes
  obtain ⟨rows, drawn, hrows, -, hdrawn, -, -, files, tables, hfiles, hlength, hdecode, hrecords⟩ :=
    tables_partition_rows hc ht (by decide) rfl hfinished
  refine ⟨_, files, tables, rfl, hfiles, hlength, hdecode, ?_⟩
  cases hrows.symm.trans pairSettings_rowStream
  cases hdrawn
  have hone : tables.flatten.map some = [some ["0", "\"yes\",\nand no"]] :=
    List.perm_singleton.mp hrecords
  exact List.map_injective_iff.mpr (Option.some_injective _) hone

end Coordinator

end SeededRows
