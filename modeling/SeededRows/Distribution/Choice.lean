/-
  SeededRows.Distribution.Choice

  One of a list of labels, picked by weight: a double below the total weight falls between
  two of the running sums.
-/
import SeededRows.Distribution.Basic

namespace SeededRows

/-- A label with its weight. -/
structure WeightedLabel where
  label : String
  weight : Float

/-- The place where a predicate that holds of the beginning of an array ends, found by bisecting
the part from `low` on that has `size` entries. -/
def partitionPoint {α : Type} (p : α → Bool) (xs : Array α) (low size : Nat) : Nat :=
  if _h : size = 0 then low
  else
    let middle := low + size / 2
    match xs[middle]? with
    | none => low
    | some x =>
      if p x then partitionPoint p xs (middle + 1) (size - size / 2 - 1)
      else partitionPoint p xs low (size / 2)
termination_by size
decreasing_by all_goals omega

/-- Labels with the running sums of their weights; the last sum is the total. -/
structure Choice where
  labels : Array String
  /-- The sums before the total. -/
  sums : Array Float
  total : Float

namespace Choice

/-- The running sums of weights after a first sum, without the last one, and the last one.
`none` when a weight is not at least zero. -/
def accumulate (sums : Array Float) (sum : Float) : List Float → Option (Array Float × Float)
  | [] => some (sums, sum)
  | w :: rest => if 0.0 ≤ w then accumulate (sums.push sum) (sum + w) rest else none

/-- The choice among weighted labels. Weights whose sum is infinite crash. -/
def ofWeights (options : List WeightedLabel) : Except Stop Choice :=
  let problem {α : Type} (p : WeightProblem) : Except Stop α :=
    .error (.fault (.invalidArgument (.weights p)))
  match options.map (·.weight) with
  | [] => problem .noOptions
  | first :: rest =>
    if 0.0 ≤ first then
      match accumulate #[] first rest with
      | none => problem .badWeight
      | some (sums, total) =>
        if total == 0.0 then problem .allZero
        else if total.isFinite then .ok ⟨(options.map (·.label)).toArray, sums, total⟩
        else .error (.crash ⟨none⟩)
    else problem .badWeight

/-- The place of the label for a double of the unit interval: the number of sums that the
stretched double has reached. -/
def place (c : Choice) (u : Float) : Nat :=
  let x := u * c.total + 0.0
  partitionPoint (· ≤ x) c.sums 0 c.sums.size

/-- Draws a label. -/
def draw (c : Choice) : Distribution := fun _ => do
  let u ← Draw.take (·.unit)
  return .text (c.labels.getD (c.place u) "")

end Choice

end SeededRows
