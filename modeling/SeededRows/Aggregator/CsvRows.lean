/-
  SeededRows.Aggregator.CsvRows

  Chosen fields of every row as a table in a file. Every copy makes a file of its own when it
  is started, so that with several workers the rows are spread over one file per worker. What
  is accumulated is the number of records written.
-/
import SeededRows.Aggregator.Count
import SeededRows.Csv.Target

namespace SeededRows

/-- The files of a copy: those it has finished, the latest first, and the one it writes to. -/
structure CsvFiles where
  finished : List CsvFile
  current : Option CsvFile
  /-- Whether the copy has ever made a file. -/
  located : Bool

namespace CsvFiles

/-- No files. -/
def none : CsvFiles := ⟨[], .none, false⟩

/-- All files, the latest first. -/
def all (files : CsvFiles) : List CsvFile := files.current.toList ++ files.finished

/-- Opens a table with a first record; a table that was open is finished. -/
def begin (files : CsvFiles) (target : CsvTarget) (first : List String) : CsvFiles :=
  ⟨files.all, some ⟨target, [first]⟩, true⟩

/-- Appends a record to the open table; `none` if there is none. -/
def append? (files : CsvFiles) (record : List String) : Option CsvFiles :=
  files.current.map fun file =>
    { files with current := some { file with records := record :: file.records } }

/-- Finishes the open table. -/
def finish (files : CsvFiles) : CsvFiles := { files with finished := files.all, current := .none }

end CsvFiles

namespace Aggregator

/-- The name of table writers in messages. -/
def csvName : String := "csv_row_writer"

/-- The fault of a target at which no file can be made. -/
def badTarget (problem : PathProblem) : Fault := .aggregator csvName problem.message

/-- The fault of a row that comes before the file was made. -/
def notStarted : Fault := .aggregator csvName "map called before start"

/-- Makes a file on a disk whose first record holds the names of the fields. -/
def openCsv (disk : Disk) (target : CsvTarget) (fields : List String) : Hook CsvFiles Unit :=
  match target.problem? disk with
  | some problem => Hook.fail (badTarget problem)
  | none => modify (·.begin target fields)

/-- Writes the cell texts of a row. -/
def writeRow (fields : List String) (row : Row) : Hook CsvFiles Nat := do
  let values ← fieldsOf csvName fields row
  match (← get).append? (values.map (·.cell)) with
  | some files =>
    set files
    return 1
  | none => Hook.fail notStarted

/-- Writes the values of fields to a file at a target on a disk. A copy starts
without a file. -/
def csvRows (disk : Disk) (target : CsvTarget) (fields : List String) : Aggregator CsvFiles where
  name := csvName
  fieldsNeeded := fields
  output := .count
  start := openCsv disk target fields
  map := writeRow fields
  reduce larger smaller := Hook.addCounts larger smaller
  done := modify (·.finish)
  copy _ := .none

end Aggregator

end SeededRows
