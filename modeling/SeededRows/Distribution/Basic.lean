/-
  SeededRows.Distribution.Basic

  A distribution draws the value of one field from the part of the row that is already drawn
  and from a source of random words. A draw that stops still leaves the source where it got
  to.
-/
import SeededRows.Fault
import SeededRows.Random.Range
import SeededRows.Random.Unit
import SeededRows.Row

namespace SeededRows

/-- A computation that takes random words and may stop. -/
abbrev Draw (α : Type) := ExceptT Stop (StateM Random.Source) α

/-- Draws the value of a field, given the fields drawn before it. -/
abbrev Distribution := Row → Draw Value

namespace Draw

/-- Takes a value from the source. -/
def take {α : Type} (f : Random.Source → α × Random.Source) : Draw α := fun s => let (a, s) := f s; (.ok a, s)

/-- Stops with a fault. -/
def fail {α : Type} (f : Fault) : Draw α := throw (.fault f)

/-- Stops with a crash. -/
def crash {α : Type} (text : String) : Draw α := throw (.crash ⟨some text⟩)

end Draw

end SeededRows
