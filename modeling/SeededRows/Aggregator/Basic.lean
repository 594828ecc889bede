/-
  SeededRows.Aggregator.Basic

  Aggregators: consumers of rows that map each row to an accumulator and fold accumulators.
  Every copy of an aggregator has a state of its own and a history of the calls made on it.
  The typed fold works on accumulators of the aggregator's own kind; the fold over
  accumulators of unknown kind checks all of them before it reduces any.
-/
import SeededRows.Fault
import SeededRows.Row

namespace SeededRows

/-- A computation on a state that may stop; what it did to the state before it stopped stays. -/
abbrev Hook (σ : Type) (α : Type) := ExceptT Stop (StateM σ) α

namespace Hook

variable {σ τ α : Type}

/-- Stops with a fault. -/
def fail (f : Fault) : Hook σ α := throw (.fault f)

/-- Stops with a crash. -/
def crash (c : Crash) : Hook σ α := throw (.crash c)

/-- Runs a hook on a part of a larger state. -/
def zoom (get : τ → σ) (set : σ → τ → τ) (h : Hook σ α) : Hook τ α := fun t =>
  let (r, s) := h (get t)
  (r, set s t)

end Hook

/-- A consumer of rows with states in `σ`. -/
structure Aggregator (σ : Type) where
  /-- The name in messages. -/
  name : String
  /-- The fields it reads, in any order. -/
  fieldsNeeded : List String
  /-- The kind of its accumulators. -/
  output : Accumulator.Kind
  /-- The setup of a copy, before the first row. -/
  start : Hook σ Unit
  map : Row → Hook σ output.Carrier
  /-- Combines two accumulators, by preference the one of more rows first. -/
  reduce : output.Carrier → output.Carrier → Hook σ output.Carrier
  /-- The teardown of a copy. -/
  done : Hook σ Unit
  /-- The state of a fresh copy made from a copy in some state. -/
  copy : σ → σ

/-- The hooks of an aggregator. -/
inductive Stage
  | start
  | map
  | reduce
  | done
deriving DecidableEq, Repr

/-- What stopped a computation, if something did. -/
def Stop.of? {α : Type} : Except Stop α → Option Stop
  | .ok _ => none
  | .error stop => some stop

/-- A call of a hook, and what stopped it, if it did not return. -/
structure Call where
  stage : Stage
  stop? : Option Stop

/-- The state of a copy with the calls made on it, the latest first. -/
structure Tracked (σ : Type) where
  state : σ
  calls : List Call

namespace Aggregator

variable {σ τ : Type} {α : Type}

/-- The same aggregator over a larger state. -/
def zoom (get : τ → σ) (set : σ → τ → τ) (a : Aggregator σ) : Aggregator τ where
  name := a.name
  fieldsNeeded := a.fieldsNeeded
  output := a.output
  start := a.start.zoom get set
  map row := (a.map row).zoom get set
  reduce larger smaller := (a.reduce larger smaller).zoom get set
  done := a.done.zoom get set
  copy t := set (a.copy (get t)) t

/-- Calls a hook on a tracked state and notes the call. -/
def tracked (stage : Stage) (h : Hook σ α) : Hook (Tracked σ) α := fun t =>
  let (r, s) := h t.state
  (r, ⟨s, ⟨stage, Stop.of? r⟩ :: t.calls⟩)

/-- The fault of a fold over nothing. -/
def emptyReduce (a : Aggregator σ) : Fault := .emptyInput (a.name ++ ": reduce_list over no values")

/-- The fault of a batch without rows. -/
def emptyBatch (a : Aggregator σ) : Fault := .emptyInput (a.name ++ ": map_reduce_batch over no rows")

/-- The fault of an accumulator of a foreign kind. -/
def foreign (a : Aggregator σ) : Fault := .aggregator a.name "accumulator has an unexpected type"

/-- Folds accumulators from the left, starting with a given one. -/
def reduceFrom (a : Aggregator σ) :
    a.output.Carrier → List a.output.Carrier → Hook (Tracked σ) a.output.Carrier
  | acc, [] => pure acc
  | acc, v :: rest => do
    let acc ← tracked .reduce (a.reduce acc v)
    a.reduceFrom acc rest

/-- Folds accumulators from the left; there must be one. -/
def reduceList (a : Aggregator σ) : List a.output.Carrier → Hook (Tracked σ) a.output.Carrier
  | [] => Hook.fail a.emptyReduce
  | v :: rest => a.reduceFrom v rest

/-- Maps rows in order; the results are put before `mapped` in reverse. -/
def mapOnto (a : Aggregator σ) :
    List a.output.Carrier → List Row → Hook (Tracked σ) (List a.output.Carrier)
  | mapped, [] => pure mapped
  | mapped, row :: rest => do
    let v ← tracked .map (a.map row)
    a.mapOnto (v :: mapped) rest

/-- Maps every row of a batch, then folds the results; there must be a row. -/
def mapReduce (a : Aggregator σ) (rows : List Row) : Hook (Tracked σ) a.output.Carrier :=
  match rows with
  | [] => Hook.fail a.emptyBatch
  | rows => do
    let mapped ← a.mapOnto [] rows
    a.reduceList mapped.reverse

/-- Folds accumulators of any kinds: if all are of the aggregator's kind, as `reduceList` does;
otherwise it stops before any of them is reduced. -/
def reduceAny (a : Aggregator σ) (values : List Accumulator) : Hook (Tracked σ) Accumulator :=
  match Accumulator.allOf? a.output values with
  | none => Hook.fail a.foreign
  | some vs => do return ⟨a.output, ← a.reduceList vs⟩

/-- Maps and folds a batch into an accumulator with its kind. -/
def mapReduceAny (a : Aggregator σ) (rows : List Row) : Hook (Tracked σ) Accumulator := do
  return ⟨a.output, ← a.mapReduce rows⟩

/-- The diagnostic text of an aggregator. -/
def diagnostic (a : Aggregator σ) : String := "Aggregator(" ++ Text.quoted a.name ++ ")"

end Aggregator

/-- A copy of an aggregator in use. -/
structure Copy (σ : Type) extends Tracked σ where
  aggregator : Aggregator σ

namespace Copy

variable {σ α : Type}

/-- A copy on which nothing has been called. -/
def fresh (aggregator : Aggregator σ) (state : σ) : Copy σ := ⟨⟨state, []⟩, aggregator⟩

/-- A fresh copy made from this one. -/
def clone (c : Copy σ) : Copy σ := fresh c.aggregator (c.aggregator.copy c.state)

/-- Runs a hook on the tracked state of a copy. -/
def run (c : Copy σ) (h : Hook (Tracked σ) α) : Except Stop α × Copy σ :=
  let (r, t) := h c.toTracked
  (r, ⟨t, c.aggregator⟩)

/-- Sets the copy up. -/
def start (c : Copy σ) : Except Stop Unit × Copy σ :=
  c.run (Aggregator.tracked .start c.aggregator.start)

/-- Maps and folds a batch of rows. -/
def mapReduce (c : Copy σ) (rows : List Row) : Except Stop Accumulator × Copy σ :=
  c.run (c.aggregator.mapReduceAny rows)

/-- Folds accumulators. -/
def reduce (c : Copy σ) (values : List Accumulator) : Except Stop Accumulator × Copy σ :=
  c.run (c.aggregator.reduceAny values)

/-- Tears the copy down. -/
def done (c : Copy σ) : Except Stop Unit × Copy σ :=
  c.run (Aggregator.tracked .done c.aggregator.done)

/-- The calls made on the copy, the earliest first. -/
def history (c : Copy σ) : List Call := c.calls.reverse

/-- How often a hook was called. -/
def count (c : Copy σ) (stage : Stage) : Nat := c.calls.countP fun call => call.stage == stage

end Copy

end SeededRows
