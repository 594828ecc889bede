/-
  SeededRows.Names

  Sets of field names as lists in increasing order without repetition. Names are ordered by
  code points.
-/
namespace SeededRows.Names

/-- Drops every name that repeats the one before it. -/
def dropRepeats : List String → List String
  | a :: b :: rest => if a = b then dropRepeats (b :: rest) else a :: dropRepeats (b :: rest)
  | names => names

/-- The set of the names of a list. -/
def ofList (names : List String) : List String := dropRepeats (names.mergeSort fun a b => a ≤ b)

end SeededRows.Names
