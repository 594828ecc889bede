/-
  SeededRows.Main

  The program: it looks at what the invocation needs from outside, runs the session, and puts
  into effect what the session says.
-/
import Std.Time.DateTime.Timestamp
import SeededRows.CommandLine.Session
import SeededRows.Distribution.Uuid

namespace SeededRows.Program

open CommandLine

/-- A key from random bytes of the machine. -/
def randomKey : IO Random.Key := do
  let bytes ← IO.getRandomBytes 32
  return Vector.ofFn fun i =>
    let byte (k : Nat) : UInt32 := (bytes.data.getD (4 * i.val + k) 0).toUInt32
    byte 0 ||| (byte 1 <<< 8) ||| (byte 2 <<< 16) ||| (byte 3 <<< 24)

/-- The sources of rows without a seed: the key with the row id mixed into it. -/
def sources (key : Random.Key) : Entropy := fun id => .ofKey (key.mix id)

/-- A random identifier. -/
def freshId : IO String := do
  let (bytes, _) := (Random.Source.ofKey (← randomKey)).bytes16
  return Uuid.text (Uuid.stamp bytes)

/-- The present time as a text. -/
def now : IO String := do
  let seconds := (← Std.Time.Timestamp.now).toSecondsSinceUnixEpoch.val
  let epoch := Calendar.Date.ofParts? 1970 1 1
  let date := epoch.bind fun d => d.addDays? (seconds / 86400).toNat
  let rest := (seconds % 86400).toNat
  let time := Calendar.TimeOfDay.ofParts? (rest / 3600) (rest / 60 % 60) (rest % 60) 0
  return (date.map (·.text)).getD "" ++ "T" ++ (time.map (·.preciseText)).getD "" ++ "+00:00"

/-- Whether an action succeeds. -/
def succeeds (action : IO Unit) : IO Bool := do
  try
    action
    return true
  catch _ => return false

/-- Opens a file for appending, and closes it again. -/
def touch (path : String) : IO Unit := do let _ ← IO.FS.Handle.mk path .append

/-- Writes a table to a new file at its target. -/
def writeTable (file : CsvFile) : IO Unit := do
  IO.FS.writeFile (file.target.path (← freshId)) file.text

/-- What there is at a place. A file that may be read is read. -/
def entry? (place : Place) (reads : Bool) : IO (Option DiskEntry) := do
  let opens (path : String) : IO Bool := succeeds do let _ ← IO.FS.Handle.mk path .read
  if ← opens (place.path ++ "/.") then return some .folder
  else if reads then
    try return some (.file (some (← IO.FS.readFile place.path))) catch _ => return none
  else return if ← opens place.path then some (.file none) else none

/-- What there is at those of some places that the disk does not know yet. -/
def explore (disk : Disk) (places : List Place) (reads : Bool) : IO Disk :=
  places.foldlM (fun disk place => do
    if (disk.entry? place).isSome then return disk
    else
      match ← entry? place reads with
      | some entry => return disk.add place entry
      | none => return disk) disk

/-- The places that the tables of the run file at a path lead through. -/
def tablePlaces (disk : Disk) (config : String) : List Place :=
  let config := ((disk.read? config).bind Toml.ofText).bind (RunFile.config? .toml)
  let specs := (config.map (·.aggregators)).getD []
  ((specs.filterMap (·.target?)).flatMap (·.passed)).eraseDups

/-- What an invocation finds outside. The log file is opened here, so that it exists from the
start. -/
def lookAround (invocation : Invocation) : IO Surroundings := do
  let key ← randomKey
  let ids := Random.Source.ofKey (← randomKey)
  match invocation with
  | .generate config args =>
    let refused ← args.logFile.toList.filterM fun path => do return !(← succeeds (touch path))
    let disk ← explore [] (Path.passed config) true
    let disk ← explore disk (tablePlaces disk config) false
    let disk ← explore disk ((args.logFile.toList ++ args.out.toList).flatMap Path.passed) false
    return ⟨disk, refused, ids, sources key⟩
  | _ => return ⟨[], [], ids, sources key⟩

/-- The session of an invocation, whose folders are made. If the machine refuses to write the
summary, the session takes that into account. -/
def settle (env : Surroundings) (invocation : Invocation) : IO Session := do
  let planned := session env invocation
  for (place, entry) in planned.disk.reverse do
    if entry == .folder then IO.FS.createDirAll place.path
  let summaries := planned.writings.filterMap fun
    | .summary place _ => some place.path
    | .entry _ => none
  let writable ← summaries.allM fun path => succeeds (touch path)
  if writable then return planned
  else
    let out := match invocation with
      | .generate _ args => args.out.toList
      | _ => []
    return session { env with refused := out ++ env.refused } invocation

/-- Appends a line to a file. -/
def appendLine (path line : String) : IO Unit := do
  (← IO.FS.Handle.mk path .append).putStrLn line

/-- Puts a session into effect. -/
def perform (invocation : Invocation) : IO UInt32 := do
  let startedAt ← now
  let startedMs ← IO.monoMsNow
  let env ← lookAround invocation
  let s ← settle env invocation
  let stamps : Stamps := ⟨← freshId, startedAt, (← IO.monoMsNow) - startedMs, ← now⟩
  for copies in (s.run.map (·.workerCopies)).getD [] do
    for copy in copies do
      for file in copy.state.all.reverse do writeTable file
  let logJson := match invocation with
    | .generate _ args => args.logJson
    | _ => false
  for writing in s.writings do
    match writing with
    | .entry e =>
      let line := e.line stamps.time
      if let some place := s.logPlace then appendLine place.path line
      IO.eprintln (if logJson then line else stamps.time ++ " " ++ e.level.label ++ " " ++ e.text)
    | .summary place v => IO.FS.writeFile place.path ((stamps.complete v).indented 0)
  if let some p := s.problem then IO.eprintln p.diagnostic
  if let some text := s.text? stamps then IO.println text
  return s.exit.toUInt32

end SeededRows.Program

/-- Runs the program on the words of the command line. -/
def main (words : List String) : IO UInt32 := do
  let invocation := SeededRows.CommandLine.Invocation.ofWords words
  match invocation with
  | .information => IO.println SeededRows.CommandLine.usage
  | .misuse => IO.eprintln SeededRows.CommandLine.usage
  | _ => pure ()
  SeededRows.Program.perform invocation
