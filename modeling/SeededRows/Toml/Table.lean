/-
  SeededRows.Toml.Table

  The tables of a TOML document while it is read. A table that was only named on the way to
  another one is implicit, and may be described later; one that was made by a dotted key may
  be extended by dotted keys only; anything else is described once.
-/
import SeededRows.Json.Basic

namespace SeededRows.Toml

/-- What stands under a key. -/
inductive Node
  | value (v : Json)
  | table (implicit dotted : Bool) (entries : List (String × Node))
  /-- An array of tables, the latest first. -/
  | tables (items : List (List (String × Node)))

/-- A table. -/
structure Table where
  /-- Whether it was only named on the way to another table. -/
  implicit : Bool
  /-- Whether a dotted key made it. -/
  dotted : Bool
  entries : List (String × Node)

namespace Table

/-- A table without entries that a header or braces describe. -/
def empty : Table := ⟨false, false, []⟩

/-- A table as what stands under a key. -/
def node (t : Table) : Node := .table t.implicit t.dotted t.entries

/-- What stands under a key. -/
def get? (t : Table) (key : String) : Option Node := t.entries.lookup key

/-- Puts a node under a key, in place of what stands there or at the end. -/
def put (key : String) (n : Node) : List (String × Node) → List (String × Node)
  | [] => [(key, n)]
  | (k, old) :: rest => if k = key then (k, n) :: rest else (k, old) :: put key n rest

/-- Sets what stands under a key. -/
def set (t : Table) (key : String) (n : Node) : Table := { t with entries := put key n t.entries }

/-- Removes a key. -/
def erase (t : Table) (key : String) : Table :=
  { t with entries := t.entries.filter fun entry => entry.1 != key }

/-- Changes the table at a path, and makes the tables on the way that are missing. The path goes
through the latest table of an array. A dotted path goes through implicit tables only. -/
def within {α : Type} (dotted : Bool) (change : Table → Option (α × Table)) :
    List String → Table → Option (α × Table)
  | [], t => change t
  | key :: path, t =>
    match t.get? key with
    | none => do
      let (a, child) ← within dotted change path ⟨true, dotted, []⟩
      return (a, t.set key child.node)
    | some (.table implicit byDots entries) =>
      if dotted ∧ ¬ implicit then none
      else do
        let (a, child) ← within dotted change path ⟨implicit, byDots, entries⟩
        return (a, t.set key child.node)
    | some (.tables (last :: before)) => do
      let (a, child) ← within dotted change path ⟨false, false, last⟩
      return (a, t.set key (.tables (child.entries :: before)))
    | some (.tables []) => none
    | some (.value _) => none

/-- Sets a value under a dotted key. The key must be new. -/
def define? (t : Table) (path : List String) (key : String) (v : Json) : Option Table :=
  let add (target : Table) : Option (Unit × Table) :=
    if target.dotted = path.isEmpty then none
    else if (target.get? key).isSome then none
    else some ((), target.set key (.value v))
  (t.within true add path).map (·.2)

end Table

mutual

/-- What stands under a key as a document. -/
def Node.json : Node → Json
  | .value v => v
  | .table _ _ entries => .record (entriesJson entries)
  | .tables items => .list (itemsJson items).reverse

/-- Entries as documents. -/
def entriesJson : List (String × Node) → List (String × Json)
  | [] => []
  | (key, n) :: rest => (key, n.json) :: entriesJson rest

/-- The tables of an array as documents. -/
def itemsJson : List (List (String × Node)) → List Json
  | [] => []
  | entries :: rest => .record (entriesJson entries) :: itemsJson rest

end

/-- A table as a document. -/
def Table.json (t : Table) : Json := .record (entriesJson t.entries)

/-! ## Headers -/

/-- A document while it is read: the tables that are complete, and the one that entries go to,
which is put in its place when the next header comes. -/
structure Outline where
  root : Table
  current : Table
  /-- The path of the current table; it is empty before the first header. -/
  path : List String
  /-- Whether the current table is an item of an array. -/
  inArray : Bool

namespace Outline

/-- The beginning of a document. -/
def empty : Outline := ⟨.empty, .empty, [], false⟩

/-- Puts the current table in its place. -/
def close? (o : Outline) : Option Table :=
  match o.path.getLast? with
  | none => some o.current
  | some key =>
    let place (parent : Table) : Option (Unit × Table) :=
      if o.inArray then
        match parent.get? key with
        | none => some ((), parent.set key (.tables [o.current.entries]))
        | some (.tables items) => some ((), parent.set key (.tables (o.current.entries :: items)))
        | some _ => none
      else if (parent.get? key).isSome then none
      else some ((), parent.set key o.current.node)
    (o.root.within false place o.path.dropLast).map (·.2)

/-- Starts a table. If it was named before, what stands below it stays. -/
def startTable? (o : Outline) (path : List String) : Option Outline := do
  let root ← o.close?
  let key ← path.getLast?
  let take (parent : Table) : Option (List (String × Node) × Table) :=
    match parent.get? key with
    | none => some ([], parent)
    | some (.table true false entries) => some (entries, parent.erase key)
    | some _ => none
  let (entries, root) ← root.within false take path.dropLast
  return ⟨root, ⟨false, false, entries⟩, path, false⟩

/-- Starts an item of an array of tables. -/
def startItem? (o : Outline) (path : List String) : Option Outline := do
  let root ← o.close?
  let key ← path.getLast?
  let open? (parent : Table) : Option (Unit × Table) :=
    match parent.get? key with
    | none => some ((), parent.set key (.tables []))
    | some (.tables _) => some ((), parent)
    | some _ => none
  let (_, root) ← root.within false open? path.dropLast
  return ⟨root, .empty, path, true⟩

/-- Adds an entry to the current table. -/
def define? (o : Outline) (path : List String) (key : String) (v : Json) : Option Outline :=
  (o.current.define? path key v).map fun current => { o with current }

end Outline

end SeededRows.Toml
