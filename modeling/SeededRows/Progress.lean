/-
  SeededRows.Progress

  Counts the rows of a run as they come in, and what is logged about it.
-/
import SeededRows.Decimal.Layout

namespace SeededRows

/-- The levels of log entries. -/
inductive Level
  | debug
  | info
  | warning
  | error
deriving DecidableEq, Repr

/-- The name of a level in logs. -/
def Level.label : Level → String
  | debug => "DEBUG"
  | info => "INFO"
  | warning => "WARN"
  | error => "ERROR"

/-- A report on the progress of a run. -/
structure ProgressEntry where
  level : Level
  message : String
  rows : Nat
  /-- The number of all rows and the percentage that is done, while the run goes on. -/
  share : Option (Nat × String)
deriving DecidableEq, Repr

/-- The number of all rows and of those that are done. -/
structure Progress where
  total : Nat
  rows : Nat
  verbose : Bool
deriving DecidableEq, Repr

namespace Progress

/-- The largest number that is counted. -/
def limit : Nat := UInt64.size - 1

/-- The beginning of a run. -/
def ofTotal (total : Nat) (verbose : Bool) : Progress := ⟨total, 0, verbose⟩

/-- Counts rows; at the limit the count stays. -/
def add (p : Progress) (rows : Nat) : Progress := { p with rows := min (p.rows + rows) limit }

/-- The percentage that is done; a run without rows is always complete. -/
def percent (p : Progress) : String :=
  if p.total = 0 then Decimal.onePlace 100.0
  else Decimal.onePlace (p.rows.toUInt64.toFloat * 100.0 / p.total.toUInt64.toFloat)

/-- The report on a run that goes on. -/
def report (p : Progress) : ProgressEntry where
  level := if p.verbose then .info else .debug
  message := "generation progress"
  rows := p.rows
  share := some (p.total, p.percent)

/-- The report on a run that is over. -/
def final (p : Progress) : ProgressEntry where
  level := .info
  message := "generation finished"
  rows := p.rows
  share := none

end Progress

end SeededRows
