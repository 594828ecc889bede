/-
  SeededRows.Word

  Integers that fit a machine word of 64 bits, signed or unsigned. A reader that meets a
  number outside the range gets `none`, never a number that has wrapped around.
-/
namespace SeededRows.Word

/-- The signed word of an integer, if it fits one. -/
def signed? (n : Int) : Option Int64 :=
  if Int64.minValue.toInt ≤ n ∧ n ≤ Int64.maxValue.toInt then some (Int64.ofInt n) else none

/-- The unsigned word of an integer, if it fits one. -/
def unsigned? (n : Int) : Option UInt64 :=
  if 0 ≤ n ∧ n < UInt64.size then some n.toNat.toUInt64 else none

end SeededRows.Word
