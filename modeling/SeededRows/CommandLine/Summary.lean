/-
  SeededRows.CommandLine.Summary

  The summary of a run: the results in the order of the aggregators, the settings, and what sets
  the run apart from other runs.
-/
import SeededRows.Aggregator.Results
import SeededRows.Json.Text
import SeededRows.RunFile.Config

namespace SeededRows.CommandLine

/-- The summaries of the results, in the order of the aggregators. -/
def summaries (results : Results) (place : Nat) : List AggregatorSpec → Except Fault (List Json)
  | [] => .ok []
  | spec :: rest => do
    let result ← spec.summarize results place
    let name := (results.names[place]?).getD ""
    return .record [("name", .text name), ("result", result)] :: (← summaries results (place + 1) rest)

/-- The summary of a run, without what sets it apart from other runs. -/
def summary (c : RunConfig) (results : Results) : Except Fault Json := do
  let entries ← summaries results 0 c.aggregators
  return .record [("results", .list entries), ("settings", RunFile.encodeSettings c.generation)]

/-- What sets a run apart from other runs: its name, when it started, how long it took, and the
time that its log bears. -/
structure Stamps where
  runId : String
  startedAt : String
  milliseconds : Nat
  time : String
deriving DecidableEq, Repr

/-- A summary with what sets its run apart, all keys in order. -/
def Stamps.complete (stamps : Stamps) : Json → Json
  | .record entries =>
    (Json.record ([("duration_ms", .int stamps.milliseconds), ("run_id", .text stamps.runId),
      ("started_at", .text stamps.startedAt)] ++ entries)).sorted
  | v => v

end SeededRows.CommandLine
