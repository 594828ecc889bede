/-
  SeededRows.Csv.Target

  Where a table is written: a directory, which is made when needed, and a stem that the name
  of the file starts with. The stem may lead into folders, but those must exist already.
-/
import SeededRows.Csv
import SeededRows.Disk

namespace SeededRows

/-- A directory for a table and the stem of its file name. -/
structure CsvTarget where
  dir : String
  stem : String
deriving DecidableEq, Repr

namespace CsvTarget

/-- The path of the file, given the identifier in its name. -/
def path (t : CsvTarget) (id : String) : String := Path.join t.dir (t.stem ++ "-" ++ id ++ ".csv")

/-- An identifier of the length that all of them have. -/
def sampleId : String := "00000000-0000-4000-8000-000000000000"

/-- Makes the directory and looks whether the file can be made. The folders that were made stay in
any case. -/
def prepare (t : CsvTarget) (disk : Disk) : Option PathProblem × Disk :=
  match disk.makeAll t.dir with
  | (some problem, disk) => (some problem, disk)
  | (none, disk) => (disk.newFileProblem? (t.path sampleId), disk)

/-- Why no file can be made at a target, if so. -/
def problem? (t : CsvTarget) (disk : Disk) : Option PathProblem := (t.prepare disk).1

/-- What is on a disk once it was tried to make a file at a target; the file itself, whose name is
new each time, is left out. -/
def leaves (t : CsvTarget) (disk : Disk) : Disk := (t.prepare disk).2

/-- The places that the paths of a target lead through. -/
def passed (t : CsvTarget) : List Place := Path.passed t.dir ++ (Path.passed (t.path sampleId)).dropLast

/-- The path of the file of a target from a folder up to the end of the stem. `none` when the
file is not below the folder. -/
def pathFrom? (t : CsvTarget) (root : Place) : Option String :=
  let path := t.path ""
  let folder := Place.walk (Path.start path) (Path.names path).dropLast
  if root.isPrefixOf folder ∧ ¬ folder.head? = some ".." ∧
      ¬ (root = [] ∧ folder.head? = some "/") then
    some (String.intercalate "/" (folder.drop root.length ++ [(t.stem.splitOn "/").getLastD ""]))
  else none

end CsvTarget

/-- A table in a file: its records, the latest first. -/
structure CsvFile where
  target : CsvTarget
  records : List (List String)
deriving DecidableEq, Repr

namespace CsvFile

/-- The records from the first to the last. -/
def table (f : CsvFile) : List (List String) := f.records.reverse

/-- The text of the file. -/
def text (f : CsvFile) : String := Csv.render f.table

end CsvFile

end SeededRows
