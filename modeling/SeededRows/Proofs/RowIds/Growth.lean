/-
  SeededRows.Proofs.RowIds.Growth

  Streams of different length. The number of rows of a plan enters its shuffles through the number of
  stripes alone. Within one number of stripes a longer stream therefore runs through the same table,
  from the same seed, and only goes further: the rows of the shorter stream are its first ones.
-/
import SeededRows.Proofs.RowIds.Stream

namespace SeededRows.RowIds

/-- Two sound streams that agree on every place hand out the same rows, one of them perhaps more. -/
theorem Stream.Sound.toList_take {s s' : Stream} (h : s.Sound) (h' : s'.Sound)
    (hspecs : ∀ i, s.specAt i = s'.specAt i) (hle : s.remaining ≤ s'.remaining) :
    s.toList = s'.toList.take s.remaining := by
  rw [h.toList_eq, h'.toList_eq, ← List.map_take, List.take_range, Nat.min_eq_left hle]
  exact List.map_congr_left fun i _ => hspecs i

namespace Plan

variable {plan : Plan} {ids ids' : Random.Source} {n m : Nat} {s s' : Stream}

/-- The numbers of rows that a plan accepts are those of which the stripes are accepted. -/
theorem stripes_of_stream (h : plan.stream ids n = .ok s) :
    plan.stripes n = .ok (n ⌈/⌉ plan.width.toNat) := by
  cases hcount : plan.stripes n with
  | error f =>
    rw [stream, hcount] at h
    cases h
  | ok count =>
    obtain ⟨-, -, hceil, -⟩ := stripes_eq_ok hcount
    rw [hceil, ceilDiv_eq]

/-- With the same stripes, the rows to come are all that tells streams of a plan apart. -/
theorem stream_of_stripes {count : Nat} (hn : plan.stripes n = .ok count)
    (hm : plan.stripes m = .ok count) (ids : Random.Source) :
    plan.stream ids m = (plan.stream ids n).map fun s => { s with remaining := m } := by
  rw [stream, stream, hn, hm]
  rfl

/-- A longer stream with a seed and as many stripes. -/
theorem stream_remaining (hseed : plan.seed ≠ none) (hn : plan.stream ids n = .ok s)
    (hm : plan.stream ids' m = .ok s') (hstripes : n ⌈/⌉ plan.width.toNat = m ⌈/⌉ plan.width.toNat) :
    s' = { s with remaining := m } := by
  rw [stream_of_seed hseed ids' ids, stream_of_stripes (stripes_of_stream hn)
    (hstripes ▸ stripes_of_stream hm), hn] at hm
  exact (Except.ok.inj hm).symm

/-- The rows of a stream with a seed are the first rows of a longer one with as many stripes, whatever
entropy is around. -/
theorem toList_take_of_stripes (hseed : plan.seed ≠ none) (hn : plan.stream ids n = .ok s)
    (hm : plan.stream ids' m = .ok s') (hle : n ≤ m)
    (hstripes : n ⌈/⌉ plan.width.toNat = m ⌈/⌉ plan.width.toNat) : s.toList = s'.toList.take n := by
  obtain ⟨hsound, hremaining⟩ := stream_sound hn
  obtain ⟨hsound', hremaining'⟩ := stream_sound hm
  have hsame : ∀ i, s.specAt i = s'.specAt i := by
    rw [stream_remaining hseed hn hm hstripes]
    exact fun _ => rfl
  rw [hsound.toList_take hsound' hsame (by rw [hremaining, hremaining']; exact hle), hremaining]

end Plan

end SeededRows.RowIds
