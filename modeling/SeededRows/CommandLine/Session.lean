/-
  SeededRows.CommandLine.Session

  What an invocation does, given what it finds outside: the files and folders that its paths lead
  to, and sources of randomness. It gives the exit code, what is printed and what is written in
  which order, and the run with its tables. One file may be run file, log and summary at once.
-/
import SeededRows.CommandLine.Arguments
import SeededRows.CommandLine.Log
import SeededRows.CommandLine.Summary
import SeededRows.Coordinator
import SeededRows.RunFile.Schema
import SeededRows.Toml.Reading

namespace SeededRows.CommandLine

/-- What an invocation finds outside. -/
structure Surroundings where
  /-- What there is at the places that paths lead through. -/
  disk : Disk
  /-- The paths at which the machine lets no file be written for reasons of its own. -/
  refused : List String
  /-- The source that shuffles row ids without a seed. -/
  ids : Random.Source
  entropy : Entropy

/-- The place of a file that is opened for writing, and the disk with the file. -/
def Surroundings.opened? (env : Surroundings) (disk : Disk) (path : String) : Option (Place × Disk) :=
  match disk.locate path with
  | .ok place => if path ∈ env.refused then none else some (place, disk.add place (.file (some "")))
  | .error _ => none

/-- Why an invocation failed. -/
inductive Problem
  | configUnreadable
  | configMalformed
  | configInvalid (f : Fault)
  | generation (error : RunError)
  | noFile

/-- What is written in the course of a session. -/
inductive Writing
  /-- An entry, which is told as well. -/
  | entry (e : LogEntry)
  /-- A summary, which replaces what the file holds. -/
  | summary (place : Place) (document : Json)

/-- What an invocation did. -/
structure Session where
  exit : Nat
  /-- What is printed: a document, which the stamps of a run complete. -/
  printed : Option Json
  /-- What is written, in this order. -/
  writings : List Writing
  /-- Where the log file is, if there is one. -/
  logPlace : Option Place
  problem : Option Problem
  /-- The run file, once it is read. -/
  config : Option RunConfig
  /-- The run, once it is started. -/
  run : Option (Run CsvFiles)
  /-- What there is on the disk afterwards. The texts are those from before the session. -/
  disk : Disk

/-! ## Problems -/

/-- The diagnostic text of why a run failed; details of the machine are left out. -/
def runDiagnostic : RunError → String
  | .fault f => "Core(" ++ f.diagnostic ++ ")"
  | .workerFailure worker info =>
    let told := Text.record "ErrorInfo"
      [("kind", Text.quoted info.kind), ("message", Text.quoted info.message)] true
    let failure := Text.record "WorkerFailure"
      [("worker_id", toString worker), ("info", told)] false
    "WorkerFailure(" ++ failure ++ ")"
  | .cancelled => "Cancelled"
  | .protocol violation => "Protocol(" ++ Text.quoted violation.message ++ ")"
  | .io _ => "Io(" ++ Text.record "Os" [] true ++ ")"
  | .csv text => "Csv(" ++ Text.quoted text ++ ")"
  | .json text => "Json(" ++ Text.quoted text ++ ")"

/-- The text of a problem on the error output. -/
def Problem.diagnostic : Problem → String
  | configUnreadable => "Error: Config(" ++ Text.record "Read" [] true ++ ")"
  | configMalformed => "Error: Config(Parse(" ++ Text.record "TomlError" [] true ++ "))"
  | configInvalid f => "Error: Config(Invalid(" ++ f.diagnostic ++ "))"
  | generation error => "Error: Generation(" ++ runDiagnostic error ++ ")"
  | noFile => "Error: Io(" ++ Text.record "Os" [] true ++ ")"

/-! ## Sessions -/

namespace Session

/-- A session that does nothing but exit. -/
def exiting (code : Nat) : Session := ⟨code, none, [], none, none, none, none, []⟩

/-- A session that prints a document. -/
def printing (v : Json) : Session := { exiting 0 with printed := some v }

/-- A session that ends with a problem. -/
def failing (s : Session) (p : Problem) : Session := { s with exit := 1, problem := some p }

/-- A session that ends because the program gave up. -/
def crashing (s : Session) : Session := { s with exit := 101 }

/-- A session with more entries in the log. -/
def noting (s : Session) (entries : List LogEntry) : Session :=
  { s with writings := s.writings ++ entries.map .entry }

/-- The log. -/
def log (s : Session) : List LogEntry :=
  s.writings.filterMap fun
    | .entry e => some e
    | .summary .. => none

/-- The text that is printed. -/
def text? (s : Session) (stamps : Stamps) : Option String :=
  s.printed.map fun v => (if s.run.isSome then stamps.complete v else v).indented 0

/-- The text of a file after a writing. -/
def textAfter (s : Session) (stamps : Stamps) (place : Place) (before : String) : Writing → String
  | .entry e => if s.logPlace = some place then before ++ e.line stamps.time ++ "\n" else before
  | .summary written v => if written = place then (stamps.complete v).indented 0 else before

/-- The text of a file at a place after the session, given the one before it. -/
def fileText (s : Session) (stamps : Stamps) (place : Place) (before : String) : String :=
  s.writings.foldl (s.textAfter stamps place) before

end Session

/-- What is on a disk after a run. -/
def diskAfter (c : RunConfig) (run : Run CsvFiles) (disk : Disk) : Disk :=
  run.workerCopies.foldl (fun disk copies =>
    (c.aggregators.zip copies).foldl (fun disk (spec, copy) =>
      if 0 < copy.count .start then spec.leaves disk else disk) disk) disk

/-- Concludes a session whose run went well. -/
def conclude (env : Surroundings) (args : GenerateArgs) (c : RunConfig) (s : Session)
    (results : Results) : Session :=
  let s := s.noting [note "generation finished"]
  match summary c results, args.out with
  | .error f, _ => s.failing (.generation (.fault f))
  | .ok v, none => { s with printed := some v }.noting [event "run_finished"]
  | .ok v, some path =>
    match env.opened? s.disk path with
    | none => s.failing .noFile
    | some (place, disk) =>
      let writings := s.writings ++ [.summary place v]
      { s with printed := some v, writings, disk }.noting
        [event "summary_written", event "run_finished"]

/-- Carries out the run of a run file. -/
def carryOut (env : Surroundings) (args : GenerateArgs) (c : RunConfig) (s : Session) : Session :=
  match c.order with
  | .error (.fault f) => s.failing (.configInvalid f)
  | .error (.crash _) => s.crashing
  | .ok order =>
    match Coordinator.ofSettings c.generation order (c.configured s.disk) with
    | .error f => s.failing (.generation (.fault f))
    | .ok coordinator =>
      let run := coordinator.start env.ids env.entropy
      let disk := diskAfter c run s.disk
      let s := { s with run := some run, disk }.noting [startEntry c.generation]
      match run.ending with
      | .finished results => conclude env args c s results
      | .failed error =>
        (s.noting (failureEntries c.generation error ++ [⟨.error, "run_failed", true⟩])).failing
          (.generation error)
      | .crashed _ => s.crashing
      | .unfinished => s.crashing

/-- Reads the run file at a path and carries out its run. -/
def runFile (env : Surroundings) (path : String) (args : GenerateArgs) (s : Session) : Session :=
  match s.disk.read? path with
  | none => s.failing .configUnreadable
  | some text =>
    match (Toml.ofText text).bind (RunFile.config? .toml) with
    | none => s.failing .configMalformed
    | some c =>
      let c := c.apply args.overrides
      carryOut env args c ({ s with config := some c }.noting [event "run_started"])

/-- Generates rows. The log file is opened first. -/
def generating (env : Surroundings) (path : String) (args : GenerateArgs) : Session :=
  let s := { Session.exiting 0 with disk := env.disk }
  match args.logFile with
  | none => runFile env path args s
  | some logFile =>
    match env.opened? s.disk logFile with
    | none => s.failing .noFile
    | some (place, disk) => runFile env path args { s with logPlace := some place, disk }

/-- What an invocation does. -/
def session (env : Surroundings) : Invocation → Session
  | .generate path args => generating env path args
  | .schema => .printing RunFile.Schema.runConfig
  | .information => .exiting 0
  | .misuse => .exiting 2

/-- How the program is used. -/
def usage : String :=
  "Usage:\n  generate --config FILE [--seed N | --unseeded] [--workers N] [--rows N]\n" ++
    "    [--batch-size N] [--verbose] [--log-json] [--log-file FILE] [--out FILE]\n  schema"

end SeededRows.CommandLine
