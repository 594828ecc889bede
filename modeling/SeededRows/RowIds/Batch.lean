/-
  SeededRows.RowIds.Batch

  Groups of rows that are generated together. A batch is named by its first and its last row.
  A stream of rows is cut into batches of one size; only the last one may be smaller.
-/
import SeededRows.RowIds.Stream

namespace SeededRows

/-- The name of a batch: its first and its last row. -/
structure BatchId where
  first : RowSpec
  last : RowSpec
deriving DecidableEq, Repr

namespace BatchId

/-- The text of a batch name. -/
def text (id : BatchId) : String := "[" ++ id.first.text ++ ".." ++ id.last.text ++ "]"

/-- The diagnostic text of a batch name. -/
def diagnostic (id : BatchId) : String :=
  Text.record "BatchId" [("first", id.first.diagnostic), ("last", id.last.diagnostic)] false

/-- The order of batch names: by first row, then by last. -/
def le (a b : BatchId) : Bool := if a.first = b.first then a.last.le b.last else a.first.le b.first

end BatchId

/-- Rows that are generated together. -/
structure Batch where
  id : BatchId
  rows : List RowSpec
deriving DecidableEq, Repr

namespace Batch

/-- The batch of some rows; no rows make no batch. -/
def ofRows? : List RowSpec → Option Batch
  | [] => none
  | first :: rest => some ⟨⟨first, (first :: rest).getLast (List.cons_ne_nil _ _)⟩, first :: rest⟩

/-- The number of rows. -/
def size (b : Batch) : Nat := b.rows.length

/-- The diagnostic text of a batch. -/
def diagnostic (b : Batch) : String :=
  Text.record "Batch"
    [("id", b.id.diagnostic), ("rows", Text.bracketed (b.rows.map (·.diagnostic)))] false

end Batch

/-- The batches of a stream of rows: the rows to come and the size of a batch. -/
structure Batches (ι : Type) where
  rows : ι
  size : Nat

namespace Batches

variable {ι : Type} [Std.Stream ι RowSpec]

/-- The batches of a given size; size 0 acts as 1. -/
def ofSize (rows : ι) (size : Nat) : Batches ι := ⟨rows, max size 1⟩

/-- The next batch and the batches after it. -/
def next? (b : Batches ι) : Option (Batch × Batches ι) :=
  let (rows, rest) := RowIds.takeRows b.size b.rows
  (Batch.ofRows? rows).map fun batch => (batch, { b with rows := rest })

/-- The next `n` batches, or all there are, and the batches after them. -/
def take : Nat → Batches ι → List Batch × Batches ι
  | 0, b => ([], b)
  | n + 1, b =>
    match b.next? with
    | none => ([], b)
    | some (batch, rest) =>
      let (more, rest) := take n rest
      (batch :: more, rest)

end Batches

end SeededRows
