/-
  SeededRows.Engine

  The engine of a worker: it draws the fields of rows and feeds the rows, batch by batch, to
  its own copies of the aggregators. A row with a seed is drawn from that seed alone, so it
  does not depend on what was drawn before.
-/
import SeededRows.Aggregator.Results
import SeededRows.Failure
import SeededRows.FieldOrder

namespace SeededRows

/-- The sources of rows without a seed, by row id. -/
abbrev Entropy := UInt64 → Random.Source

/-- What ends the work on a batch: something stopped, or the run was cancelled. -/
inductive Halt
  | stop (s : Stop)
  | cancelled

/-! ## Selection of fields -/

/-- The fields that copies of aggregators read, but for the row id. -/
def neededFields {σ : Type} (copies : List (Copy σ)) : List String :=
  (copies.flatMap fun c => c.aggregator.fieldsNeeded).filter (· ≠ idField)

/-- The shortest beginning of a list that holds all its needed names. -/
def prefixThrough (needed names : List String) : List String :=
  (names.reverse.dropWhile fun name => !needed.contains name).reverse

/-- The fields to draw: those up to the last needed one. The ones between are drawn as well,
since every draw changes what the later ones take from the source. -/
def selectFields {σ : Type} (order : FieldOrder) (copies : List (Copy σ)) :
    Except Fault (List String) :=
  let needed := neededFields copies
  match needed.filter fun name => !order.contains name with
  | [] => .ok (prefixThrough needed order.names)
  | missing => .error (.missingFields (Names.ofList missing))

/-! ## Rows -/

/-- Draws fields into a row, each with the fields before it in view. -/
def drawFields (order : FieldOrder) :
    List String → Random.Source → Row → Except Stop Row
  | [], _, row => .ok row
  | name :: rest, source, row =>
    match order.get? name with
    | none => .error (.fault (.missingFields [name]))
    | some d =>
      match d row source with
      | (.ok v, source) => drawFields order rest source (row.insert name v)
      | (.error s, _) => .error s

/-- The source that a row is drawn from. -/
def RowSpec.source (entropy : Entropy) (spec : RowSpec) : Random.Source :=
  match spec.seed with
  | some seed => .ofSeed seed.toUInt64
  | none => entropy spec.id

/-! ## Copies of aggregators in a row -/

namespace Copies

variable {σ : Type}

/-- Tears copies down in order. A fault does not keep the later ones from it, and the first
fault is reported; a crash ends it at once. -/
def finish : List (Copy σ) → Option Fault → Except Stop Unit × List (Copy σ)
  | [], none => (.ok (), [])
  | [], some f => (.error (.fault f), [])
  | c :: rest, first =>
    match c.done with
    | (.error (.crash crash), c) => (.error (.crash crash), c :: rest)
    | (.error (.fault f), c) =>
      let (r, rest) := finish rest (some (first.getD f))
      (r, c :: rest)
    | (.ok (), c) =>
      let (r, rest) := finish rest first
      (r, c :: rest)

/-- Sets copies up in order; those before are set up already. When one stops with a fault, the
ones before it are torn down, and only a crash in doing so is reported instead. -/
def start (before : List (Copy σ)) : List (Copy σ) → Except Stop Unit × List (Copy σ)
  | [] => (.ok (), before)
  | c :: rest =>
    match c.start with
    | (.ok (), c) => start (before ++ [c]) rest
    | (.error (.crash crash), c) => (.error (.crash crash), before ++ c :: rest)
    | (.error (.fault f), c) =>
      match finish before none with
      | (.error (.crash crash), before) => (.error (.crash crash), before ++ c :: rest)
      | (_, before) => (.error (.fault f), before ++ c :: rest)

/-- Feeds rows to copies in order; the first one that stops ends it. -/
def mapReduce (rows : List Row) : List (Copy σ) → Except Stop (List Accumulator) × List (Copy σ)
  | [] => (.ok [], [])
  | c :: rest =>
    match c.mapReduce rows with
    | (.error s, c) => (.error s, c :: rest)
    | (.ok v, c) =>
      let (r, rest) := mapReduce rows rest
      (r.map (v :: ·), c :: rest)

end Copies

/-! ## The engine -/

/-- An engine: the fields it can draw, those it does draw, and its copies of the aggregators. -/
structure Engine (σ : Type) where
  order : FieldOrder
  fields : List String
  copies : List (Copy σ)

namespace Engine

variable {σ : Type}

/-- Makes an engine with fresh copies of the configured aggregators, all set up. The copies come
back in any case. -/
def start (order : FieldOrder) (configured : List (Copy σ)) :
    Except Stop (Engine σ) × List (Copy σ) :=
  let copies := configured.map Copy.clone
  match selectFields order copies with
  | .error f => (.error (.fault f), copies)
  | .ok fields =>
    match Copies.start [] copies with
    | (.ok (), copies) => (.ok ⟨order, fields, copies⟩, copies)
    | (.error s, copies) => (.error s, copies)

/-- Draws a row. -/
def generateRow (e : Engine σ) (entropy : Entropy) (spec : RowSpec) : Except Stop Row :=
  drawFields e.order e.fields (spec.source entropy) (.empty spec.id)

/-- Draws rows in order. `cancelled` tells for every place whether the run is seen to be
cancelled before the row in that place is drawn. -/
def generateRows (e : Engine σ) (entropy : Entropy) (cancelled : Nat → Bool) (place : Nat) :
    List RowSpec → Except Halt (List Row)
  | [] => .ok []
  | spec :: rest =>
    if cancelled place then .error .cancelled
    else
      match e.generateRow entropy spec with
      | .error s => .error (.stop s)
      | .ok row => (e.generateRows entropy cancelled (place + 1) rest).map (row :: ·)

/-- Draws all rows of a batch, then feeds them to every aggregator. -/
def process (e : Engine σ) (entropy : Entropy) (cancelled : Nat → Bool) (specs : List RowSpec) :
    Except Halt (List Accumulator) × Engine σ :=
  match e.generateRows entropy cancelled 0 specs with
  | .error h => (.error h, e)
  | .ok rows =>
    let (r, copies) := Copies.mapReduce rows e.copies
    (r.mapError .stop, { e with copies })

/-- Tears every aggregator down. -/
def done (e : Engine σ) : Except Stop Unit × Engine σ :=
  let (r, copies) := Copies.finish e.copies none
  (r, { e with copies })

end Engine

end SeededRows
