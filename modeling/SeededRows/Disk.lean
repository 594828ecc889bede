/-
  SeededRows.Disk

  What is on a disk: folders and files, where a path leads, and how a folder is made together
  with the folders above it. A path is followed name by name, so `..` and `.` need the folder
  before them to exist; the folders above a path, however, are found by its text alone. The two
  disagree on a path that ends in `.`, which therefore cannot be made unless it exists already.
-/
import SeededRows.Place

namespace SeededRows

/-- What is at a place. -/
inductive DiskEntry
  | folder
  /-- A file, and its text if it can be read. -/
  | file (text : Option String)
deriving DecidableEq, Repr

/-- What is on a disk, by places. The first entry of a place counts. -/
abbrev Disk := List (Place × DiskEntry)

namespace Disk

/-! ## Entries -/

/-- What is at a place. -/
def entry? (disk : Disk) (place : Place) : Option DiskEntry :=
  if place.given then some .folder else disk.lookup place

/-- Whether there is a folder at a place. -/
def isFolder (disk : Disk) (place : Place) : Bool := disk.entry? place == some .folder

/-- Whether there is a file at a place. -/
def isFile (disk : Disk) (place : Place) : Bool :=
  match disk.entry? place with
  | some (.file _) => true
  | _ => false

/-- Puts an entry at a place where there is none. -/
def add (disk : Disk) (place : Place) (entry : DiskEntry) : Disk :=
  if (disk.entry? place).isSome then disk else (place, entry) :: disk

/-- Follows names through folders. -/
def follow (disk : Disk) (place : Place) : List String → Except PathProblem Place
  | [] => .ok place
  | name :: rest =>
    if Path.longestName < name.utf8ByteSize then .error .longName
    else
      match disk.entry? (place.enter name) with
      | some .folder => disk.follow (place.enter name) rest
      | some (.file _) => .error .notFolder
      | none => .error .missingFolder

/-! ## Folders -/

/-- Makes a folder in one that exists, unless it is there already. -/
def make (disk : Disk) (start : Place) (names : List String) : Except PathProblem Disk := do
  let above ← disk.follow start names.dropLast
  let name := names.getLastD "."
  if Path.longestName < name.utf8ByteSize then .error .longName
  else if disk.isFile (above.enter name) then .error .taken
  else .ok (disk.add (above.enter name) .folder)

/-- Makes a folder, or first what is above it and then the folder. The folders that were made
stay even if that fails. -/
def makeAfter (above : Disk → Option PathProblem × Disk) (start : Place) (names : List String)
    (disk : Disk) : Option PathProblem × Disk :=
  match disk.make start names with
  | .ok disk => (none, disk)
  | .error .missingFolder =>
    match above disk with
    | (some problem, disk) => (some problem, disk)
    | (none, disk) =>
      match disk.make start names with
      | .ok disk => (none, disk)
      | .error problem => (some problem, disk)
  | .error problem => (some problem, disk)

/-- Makes the folder that names, given in reverse, lead to, with all above it; a `.` at the end of
them is passed over. -/
def makeAbove (start : Place) : List String → Disk → Option PathProblem × Disk
  | [], disk => (none, disk)
  | name :: above, disk =>
    if name = "." then makeAbove start above disk
    else makeAfter (makeAbove start above) start (name :: above).reverse disk

/-- Makes the folder of a path with all folders above it. -/
def makeAll (disk : Disk) (path : String) : Option PathProblem × Disk :=
  match Path.problem? path with
  | some problem => (some problem, disk)
  | none =>
    let names := Path.names path
    let above := (names.reverse.dropWhile (· = ".")).tail
    makeAfter (makeAbove (Path.start path) above) (Path.start path) names disk

/-! ## Files -/

/-- The folder of the file that a path leads to, and the name of the file in it. -/
def folderOf (disk : Disk) (path : String) : Except PathProblem (Place × String) :=
  match Path.problem? path with
  | some problem => .error problem
  | none => do
    let names := Path.names path
    let folder ← disk.follow (Path.start path) names.dropLast
    let name := names.getLastD "."
    if Path.longestName < name.utf8ByteSize then .error .longName else .ok (folder, name)

/-- Why no new file can be made at a path that ends in its name, if so. -/
def newFileProblem? (disk : Disk) (path : String) : Option PathProblem :=
  match disk.folderOf path with
  | .ok _ => none
  | .error problem => some problem

/-- The place of the file that a path leads to. The file need not exist, but no folder may be in
its place. -/
def locate (disk : Disk) (path : String) : Except PathProblem Place := do
  let (folder, name) ← disk.folderOf path
  let place := folder.enter name
  if path.endsWith "/" ∨ name = "." ∨ disk.isFolder place then .error .notFile else .ok place

/-- The text of the file that a path leads to, if there is one that can be read. -/
def read? (disk : Disk) (path : String) : Option String :=
  match disk.locate path with
  | .error _ => none
  | .ok place =>
    match disk.entry? place with
    | some (.file text) => text
    | _ => none

end Disk

end SeededRows
