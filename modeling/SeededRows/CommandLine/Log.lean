/-
  SeededRows.CommandLine.Log

  The log of an invocation: its entries, which of them a run leads to, and their lines in a file.
-/
import SeededRows.Failure
import SeededRows.Json.Text
import SeededRows.Progress
import SeededRows.Settings

namespace SeededRows.CommandLine

/-- An entry of the log: the name of an event, or a message. -/
structure LogEntry where
  level : Level
  text : String
  isEvent : Bool
deriving DecidableEq, Repr

/-- An event at the level of information. -/
def event (name : String) : LogEntry := ⟨.info, name, true⟩

/-- A message at the level of information. -/
def note (text : String) : LogEntry := ⟨.info, text, false⟩

/-- The line of an entry in a log file, at a time. -/
def LogEntry.line (time : String) (e : LogEntry) : String :=
  let field := if e.isEvent then "event" else "message"
  (Json.record [("timestamp", .text time), ("level", .text e.level.label),
    ("fields", .record [(field, .text e.text)])]).compact

/-- The entry that says how a run is carried out. -/
def startEntry (s : Settings) : LogEntry :=
  note (if s.workers = 1 then "generating on the calling thread" else "starting worker pool")

/-- The entries for the failure of a run. A worker of a pool tells its failure itself as well, and
a pool is given up. -/
def failureEntries (s : Settings) : RunError → List LogEntry
  | .workerFailure _ info =>
    if s.workers = 1 then [⟨.error, info.message, false⟩]
    else
      [⟨.warning, info.message, false⟩, ⟨.error, info.message, false⟩,
       ⟨.warning, "aborting generation", false⟩]
  | .fault _ => [note "generation finished"]
  | _ => if s.workers = 1 then [] else [⟨.warning, "aborting generation", false⟩]

end SeededRows.CommandLine
