/-
  SeededRows.Distribution.Uuid

  Random identifiers of version 4 in their usual text form.
-/
import SeededRows.Distribution.Basic

namespace SeededRows.Uuid

/-- Sets the version and variant bits of sixteen random bytes. -/
def stamp (bytes : List UInt8) : List UInt8 :=
  bytes.mapIdx fun i b =>
    if i = 6 then (b &&& 0x0f) ||| 0x40 else if i = 8 then (b &&& 0x3f) ||| 0x80 else b

/-- The two hexadecimal digits of a byte. -/
def byteText (b : UInt8) : String :=
  String.ofList [Nat.digitChar (b.toNat / 16), Nat.digitChar (b.toNat % 16)]

/-- Sixteen bytes in groups of 4, 2, 2, 2 and 6, joined by hyphens. -/
def text (bytes : List UInt8) : String :=
  String.join (bytes.mapIdx fun i b =>
    (if i = 4 ∨ i = 6 ∨ i = 8 ∨ i = 10 then "-" else "") ++ byteText b)

/-- Draws an identifier. -/
def draw : Distribution := fun _ => do return .uuid (text (stamp (← Draw.take (·.bytes16))))

end SeededRows.Uuid
