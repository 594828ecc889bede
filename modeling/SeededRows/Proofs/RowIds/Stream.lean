/-
  SeededRows.Proofs.RowIds.Stream

  The rows that a stream hands out. A stream is a cursor that runs through a table of stripes
  and offsets, row by row; `Sound` says that the cursor is inside the table, that enough places
  follow it, and that no stripe and no offset stands in the table twice. Every step keeps this,
  so the rows are those of the next places in order, and no two of them have the same id.
-/
import Mathlib.Algebra.Order.Floor.Div
import Mathlib.Data.List.Nodup
import Mathlib.Tactic.Ring
import SeededRows.Proofs.RowIds.Shuffle
import SeededRows.RowIds.Stream

namespace SeededRows

/-! ## Ids -/

theorem RowSpec.toNat_idOf {stripe offset : Nat} (hs : stripe < stripeLimit)
    (ho : offset < stripeLimit) : (RowSpec.idOf stripe offset).toNat = stripe * 2 ^ 32 + offset := by
  simp only [stripeLimit, UInt32.size] at hs ho
  have h32 : (32 : UInt64).toNat % 64 = 32 := by decide
  have hstripe : stripe.toUInt64.toNat = stripe := by
    rw [UInt64.toNat_ofNat']
    omega
  have hoffset : offset.toUInt64.toNat = offset := by
    rw [UInt64.toNat_ofNat']
    omega
  rw [RowSpec.idOf, UInt64.toNat_or, UInt64.toNat_shiftLeft, hstripe, hoffset, h32,
    Nat.mod_eq_of_lt (by rw [Nat.shiftLeft_eq]; omega), ← Nat.shiftLeft_add_eq_or_of_lt ho,
    Nat.shiftLeft_eq]

/-- An id tells the stripe and the offset that it was made of. -/
theorem RowSpec.idOf_inj {s o s' o' : Nat} (hs : s < stripeLimit) (ho : o < stripeLimit)
    (hs' : s' < stripeLimit) (ho' : o' < stripeLimit) (h : RowSpec.idOf s o = RowSpec.idOf s' o') :
    s = s' ∧ o = o' := by
  have hn := congrArg UInt64.toNat h
  rw [RowSpec.toNat_idOf hs ho, RowSpec.toNat_idOf hs' ho'] at hn
  simp only [stripeLimit, UInt32.size] at ho ho'
  omega

theorem RowSpec.toNat_stripe (spec : RowSpec) : spec.stripe.toNat = spec.id.toNat / 2 ^ 32 := by
  have h32 : (32 : UInt64).toNat % 64 = 32 := by decide
  rw [stripe, UInt64.toNat_shiftRight, h32, Nat.shiftRight_eq_div_pow]

theorem RowSpec.toNat_offset (spec : RowSpec) : spec.offset.toNat = spec.id.toNat % 2 ^ 32 := by
  have hmask : (0xffffffff : UInt64).toNat = 2 ^ 32 - 1 := by decide
  rw [offset, UInt64.toNat_and, hmask, Nat.and_two_pow_sub_one_eq_mod]

namespace RowIds

/-! ## What a stream hands out -/

section Yields

variable {ι : Type} [Std.Stream ι RowSpec]

/-- A stream hands out these rows, and then it ends. -/
inductive Yields : ι → List RowSpec → Prop
  | ends {rows : ι} : Std.Stream.next? rows = none → Yields rows []
  | row {rows rest : ι} {spec : RowSpec} {specs : List RowSpec} :
      Std.Stream.next? rows = some (spec, rest) → Yields rest specs → Yields rows (spec :: specs)

theorem takeOnto_of_yields {rows : ι} {specs : List RowSpec} (h : Yields rows specs) (n : Nat)
    (taken : List RowSpec) : ∃ rest,
      takeOnto n taken rows = ((specs.take n).reverse ++ taken, rest) ∧ Yields rest (specs.drop n) := by
  induction n generalizing rows specs taken with
  | zero => exact ⟨rows, rfl, h⟩
  | succ n ih =>
    cases h with
    | ends hnone =>
      refine ⟨rows, ?_, .ends hnone⟩
      rw [takeOnto, hnone]
      rfl
    | @row _ rest spec specs hnext hrest =>
      obtain ⟨last, htake, hlast⟩ := ih hrest (spec :: taken)
      refine ⟨last, ?_, hlast⟩
      rw [takeOnto, hnext]
      simp only [htake, List.take_succ_cons, List.reverse_cons, List.append_assoc,
        List.singleton_append]

/-- Rows are taken from the front, and the rest of the stream hands out the others. -/
theorem takeRows_of_yields {rows : ι} {specs : List RowSpec} (h : Yields rows specs) (n : Nat) :
    ∃ rest, takeRows n rows = (specs.take n, rest) ∧ Yields rest (specs.drop n) := by
  obtain ⟨rest, htake, hrest⟩ := takeOnto_of_yields h n []
  refine ⟨rest, ?_, hrest⟩
  rw [takeRows, htake]
  simp only [List.append_nil, List.reverse_reverse]

end Yields

/-! ## The cursor of a stream of row ids -/

namespace Stream

/-- The place of the cursor, counted through the stripes. -/
def position (s : Stream) : Nat := s.stripePos * s.offsets.size + s.offsetPos

/-- The id in a place of the table. -/
def idAt (s : Stream) (i : Nat) : UInt64 :=
  RowSpec.idOf (s.stripes.getD (i / s.offsets.size) 0) (s.offsets.getD (i % s.offsets.size) 0)

/-- The row that comes after a number of others. -/
def specAt (s : Stream) (i : Nat) : RowSpec :=
  ⟨s.idAt (s.position + i), s.nextSeed.map (· + Int64.ofNat i)⟩

/-- The cursor is inside the table and has the places of the remaining rows before it. -/
structure Sound (s : Stream) : Prop where
  stripes_nodup : s.stripes.toList.Nodup
  offsets_nodup : s.offsets.toList.Nodup
  stripes_lt : ∀ x ∈ s.stripes, x < stripeLimit
  offsets_lt : ∀ x ∈ s.offsets, x < stripeLimit
  offsetPos_lt : s.offsetPos < s.offsets.size
  room : s.position + s.remaining ≤ s.stripes.size * s.offsets.size

variable {s : Stream}

theorem Sound.position_div (h : s.Sound) : s.position / s.offsets.size = s.stripePos := by
  have hpos : 0 < s.offsets.size := Nat.lt_of_le_of_lt (Nat.zero_le _) h.offsetPos_lt
  rw [position, Nat.add_comm, Nat.add_mul_div_right _ _ hpos, Nat.div_eq_of_lt h.offsetPos_lt,
    Nat.zero_add]

theorem Sound.position_mod (h : s.Sound) : s.position % s.offsets.size = s.offsetPos := by
  rw [position, Nat.add_comm, Nat.add_mul_mod_self_right, Nat.mod_eq_of_lt h.offsetPos_lt]

theorem Sound.stripePos_lt (h : s.Sound) (hr : s.remaining ≠ 0) : s.stripePos < s.stripes.size := by
  have hpos : 0 < s.offsets.size := Nat.lt_of_le_of_lt (Nat.zero_le _) h.offsetPos_lt
  have hroom := h.room
  rw [← h.position_div]
  exact (Nat.div_lt_iff_lt_mul hpos).mpr (by omega)

/-- A step of the cursor: it hands out the row in its place and moves to the next place of the
same table. -/
theorem Sound.next (h : s.Sound) (hr : s.remaining ≠ 0) : ∃ rest,
    Std.Stream.next? s = some (s.specAt 0, rest) ∧ rest.Sound ∧ rest.remaining = s.remaining - 1 ∧
      ∀ i, rest.specAt i = s.specAt (i + 1) := by
  have hstripe := h.stripePos_lt hr
  have hoffset := h.offsetPos_lt
  have hid : s.idAt s.position = RowSpec.idOf s.stripes[s.stripePos] s.offsets[s.offsetPos] := by
    rw [idAt, h.position_div, h.position_mod, Array.getElem_eq_getD 0, Array.getElem_eq_getD 0]
  have hspec : s.specAt 0 = ⟨RowSpec.idOf s.stripes[s.stripePos] s.offsets[s.offsetPos], s.nextSeed⟩ := by
    rw [specAt, Nat.add_zero, hid]
    cases s.nextSeed <;> simp
  let wrapped := s.offsetPos + 1 = s.offsets.size
  let rest : Stream :=
    { s with
      offsetPos := if wrapped then 0 else s.offsetPos + 1
      stripePos := if wrapped then s.stripePos + 1 else s.stripePos
      nextSeed := s.nextSeed.map (· + 1)
      remaining := s.remaining - 1 }
  have hposition : rest.position = s.position + 1 := by
    by_cases hw : wrapped
    · have hlast : s.offsetPos + 1 = s.offsets.size := hw
      simp only [position, rest, if_pos hw, Nat.add_mul, Nat.one_mul]
      omega
    · simp only [position, rest, if_neg hw]
      omega
  have hroom := h.room
  -- at the end of a stripe the cursor goes to the start of the next one
  refine ⟨rest, ?_, ⟨h.stripes_nodup, h.offsets_nodup, h.stripes_lt, h.offsets_lt, ?_, ?_⟩, rfl, ?_⟩
  · show s.next? = _
    rw [next?, if_neg hr, Array.getElem?_eq_getElem hstripe, Array.getElem?_eq_getElem hoffset, hspec]
  · by_cases hw : wrapped
    · simp only [rest, if_pos hw]
      omega
    · have hnot : s.offsetPos + 1 ≠ s.offsets.size := hw
      simp only [rest, if_neg hw]
      omega
  · show rest.position + (s.remaining - 1) ≤ s.stripes.size * s.offsets.size
    omega
  · intro i
    have hseed : rest.nextSeed.map (· + Int64.ofNat i) = s.nextSeed.map (· + Int64.ofNat (i + 1)) := by
      have hone : Int64.ofNat (i + 1) = 1 + Int64.ofNat i := by
        rw [Nat.add_comm, Int64.ofNat_add]
        rfl
      cases hs : s.nextSeed <;> simp [rest, hs, hone, Int64.add_assoc]
    rw [specAt, specAt, hposition, hseed, Nat.add_assoc, Nat.add_comm 1 i]
    rfl

/-- A sound stream hands out the rows of the places from its cursor on. -/
theorem Sound.yields (h : s.Sound) : Yields s ((List.range s.remaining).map s.specAt) := by
  induction hn : s.remaining generalizing s with
  | zero =>
    refine .ends ?_
    show s.next? = none
    rw [next?, if_pos hn]
  | succ n ih =>
    obtain ⟨rest, hnext, hsound, hrem, hspecs⟩ := h.next (by omega)
    have hrest := ih hsound (by omega)
    rw [List.range_succ_eq_map, List.map_cons, List.map_map]
    refine .row hnext ?_
    have hfun : s.specAt ∘ Nat.succ = rest.specAt := funext fun i => (hspecs i).symm
    rw [hfun]
    exact hrest

theorem Sound.toList_eq (h : s.Sound) : s.toList = (List.range s.remaining).map s.specAt := by
  obtain ⟨rest, htake, -⟩ := takeRows_of_yields h.yields s.remaining
  rw [toList, htake, List.take_of_length_le (by simp)]

theorem Sound.yields_toList (h : s.Sound) : Yields s s.toList := h.toList_eq ▸ h.yields

theorem Sound.length_toList (h : s.Sound) : s.toList.length = s.remaining := by
  rw [h.toList_eq, List.length_map, List.length_range]

theorem remaining_of_next? {rest : Stream} {spec : RowSpec}
    (h : Std.Stream.next? s = some (spec, rest)) : rest.remaining + 1 = s.remaining := by
  change s.next? = _ at h
  rw [next?] at h
  split at h
  · cases h
  · rename_i hremaining
    split at h
    · cases h
      exact Nat.sub_add_cancel (Nat.pos_of_ne_zero hremaining)
    · cases h

/-- Rows that are taken off a stream do not remain in it. -/
theorem length_takeOnto (n : Nat) (taken : List RowSpec) (s : Stream) :
    (takeOnto n taken s).1.length + (takeOnto n taken s).2.remaining =
      taken.length + s.remaining := by
  induction n generalizing taken s with
  | zero => rfl
  | succ n ih =>
    rw [takeOnto]
    split
    · rfl
    · rename_i spec rest hnext
      rw [ih, List.length_cons, ← remaining_of_next? hnext]
      omega

/-- Places of the table with the same id are the same place. -/
theorem Sound.idAt_inj (h : s.Sound) {i j : Nat} (hi : i < s.stripes.size * s.offsets.size)
    (hj : j < s.stripes.size * s.offsets.size) (heq : s.idAt i = s.idAt j) : i = j := by
  have hpos : 0 < s.offsets.size := Nat.lt_of_le_of_lt (Nat.zero_le _) h.offsetPos_lt
  have hstripe : ∀ {i}, i < s.stripes.size * s.offsets.size → i / s.offsets.size < s.stripes.size :=
    fun hi => (Nat.div_lt_iff_lt_mul hpos).mpr hi
  have hoffset : ∀ i, i % s.offsets.size < s.offsets.size := fun i => Nat.mod_lt i hpos
  rw [idAt, idAt, ← Array.getElem_eq_getD (h := hstripe hi), ← Array.getElem_eq_getD (h := hstripe hj),
    ← Array.getElem_eq_getD (h := hoffset i), ← Array.getElem_eq_getD (h := hoffset j)] at heq
  obtain ⟨hs, ho⟩ := RowSpec.idOf_inj (h.stripes_lt _ (Array.getElem_mem _))
    (h.offsets_lt _ (Array.getElem_mem _)) (h.stripes_lt _ (Array.getElem_mem _))
    (h.offsets_lt _ (Array.getElem_mem _)) heq
  -- different places of a shuffle hold different numbers
  rw [← Array.getElem_toList, ← Array.getElem_toList] at hs ho
  have hdiv : i / s.offsets.size = j / s.offsets.size := h.stripes_nodup.getElem_inj_iff.mp hs
  have hmod : i % s.offsets.size = j % s.offsets.size := h.offsets_nodup.getElem_inj_iff.mp ho
  rw [← Nat.div_add_mod i s.offsets.size, hdiv, hmod, Nat.div_add_mod]

/-- Rows of a stream with the same id are the same row. -/
theorem Sound.specAt_inj (h : s.Sound) {i j : Nat} (hi : i < s.remaining) (hj : j < s.remaining)
    (heq : (s.specAt i).id = (s.specAt j).id) : i = j := by
  have hroom := h.room
  have hsame := h.idAt_inj (i := s.position + i) (j := s.position + j) (by omega) (by omega) heq
  omega

theorem Sound.ids_nodup (h : s.Sound) : (s.toList.map RowSpec.id).Nodup := by
  rw [h.toList_eq, List.map_map]
  refine List.Nodup.map_on ?_ List.nodup_range
  intro i hi j hj heq
  exact h.specAt_inj (List.mem_range.mp hi) (List.mem_range.mp hj) heq

end Stream

/-! ## The streams of plans -/

namespace Plan

theorem le_ceilDiv_mul (rows : Nat) {width : Nat} (h : 0 < width) : rows ≤ ceilDiv rows width * width := by
  have hdiv := Nat.div_add_mod (rows + width - 1) width
  have hmod := Nat.mod_lt (rows + width - 1) h
  rw [ceilDiv, Nat.mul_comm]
  omega

theorem ceilDiv_eq (rows width : Nat) : ceilDiv rows width = rows ⌈/⌉ width :=
  (Nat.ceilDiv_eq_add_pred_div rows width).symm

theorem stripes_eq (plan : Plan) (rows : Nat) : plan.stripes rows =
    if plan.width.toNat = 0 ∨ stripeLimit < plan.width.toNat then refuse (.stripeWidth plan.width.toNat)
    else if stripeLimit < ceilDiv rows plan.width.toNat then
      refuse (.stripeCount rows (ceilDiv rows plan.width.toNat))
    else .ok (ceilDiv rows plan.width.toNat) := rfl

/-- The number of stripes that a plan accepts. -/
theorem stripes_eq_ok {plan : Plan} {rows count : Nat} (h : plan.stripes rows = .ok count) :
    0 < plan.width.toNat ∧ plan.width.toNat ≤ stripeLimit ∧ count = ceilDiv rows plan.width.toNat ∧
      count ≤ stripeLimit := by
  rw [stripes_eq] at h
  split at h
  · cases h
  · split at h
    · cases h
    · cases h
      omega

/-- What the two shuffles of a plan can come out as: the numbers of its stripes and the offsets of
one stripe, each in some order. -/
structure Outcome (plan : Plan) (rows : Nat) (stripes offsets : Array Nat) : Prop where
  width_pos : 0 < plan.width.toNat
  width_le : plan.width.toNat ≤ stripeLimit
  count_le : rows ⌈/⌉ plan.width.toNat ≤ stripeLimit
  stripes_perm : stripes.Perm (Array.range (rows ⌈/⌉ plan.width.toNat))
  offsets_perm : offsets.Perm (Array.range plan.width.toNat)

/-- The stream of a plan whose shuffles came out as given. -/
def laid (plan : Plan) (rows : Nat) (stripes offsets : Array Nat) : Stream where
  stripes := stripes
  offsets := offsets
  stripePos := 0
  offsetPos := 0
  nextSeed := plan.seed.map (· + 1)
  remaining := rows

/-- The streams that plans make are laid out from an outcome of the shuffles. -/
theorem stream_eq_ok {plan : Plan} {entropy : Random.Source} {rows : Nat} {s : Stream}
    (h : plan.stream entropy rows = .ok s) :
    ∃ stripes offsets, plan.Outcome rows stripes offsets ∧ s = plan.laid rows stripes offsets := by
  rw [stream] at h
  cases hcount : plan.stripes rows with
  | error f =>
    rw [hcount] at h
    cases h
  | ok count =>
    rw [hcount] at h
    obtain ⟨hwidth, hwidth', hceil, hcount'⟩ := stripes_eq_ok hcount
    rw [hceil, ceilDiv_eq] at hcount'
    simp only [bind, Except.bind, pure, Except.pure, Except.ok.injEq] at h
    refine ⟨_, _, ⟨hwidth, hwidth', hcount', ?_, Random.shuffle_perm _ _⟩, h.symm⟩
    rw [← ceilDiv_eq, ← hceil]
    exact Random.shuffle_perm _ _

namespace Outcome

variable {plan : Plan} {rows : Nat} {stripes offsets : Array Nat}

theorem stripes_size (h : plan.Outcome rows stripes offsets) :
    stripes.size = rows ⌈/⌉ plan.width.toNat := by
  rw [h.stripes_perm.size_eq, Array.size_range]

theorem offsets_size (h : plan.Outcome rows stripes offsets) : offsets.size = plan.width.toNat := by
  rw [h.offsets_perm.size_eq, Array.size_range]

theorem stripe_lt (h : plan.Outcome rows stripes offsets) {x : Nat} (hx : x ∈ stripes) :
    x < rows ⌈/⌉ plan.width.toNat :=
  Array.mem_range.mp (h.stripes_perm.mem_iff.mp hx)

theorem offset_lt (h : plan.Outcome rows stripes offsets) {x : Nat} (hx : x ∈ offsets) :
    x < plan.width.toNat :=
  Array.mem_range.mp (h.offsets_perm.mem_iff.mp hx)

/-- The cursor stands at the start of the table, which has room for all rows. -/
theorem sound (h : plan.Outcome rows stripes offsets) : (plan.laid rows stripes offsets).Sound where
  stripes_nodup := Random.nodup_of_perm_range h.stripes_perm
  offsets_nodup := Random.nodup_of_perm_range h.offsets_perm
  stripes_lt _ hx := Nat.lt_of_lt_of_le (h.stripe_lt hx) h.count_le
  offsets_lt _ hx := Nat.lt_of_lt_of_le (h.offset_lt hx) h.width_le
  offsetPos_lt := h.offsets_size ▸ h.width_pos
  room := by
    have hle := le_ceilDiv_mul rows h.width_pos
    simpa only [Stream.position, laid, Nat.zero_mul, Nat.zero_add, h.stripes_size,
      h.offsets_size, ceilDiv_eq] using hle

end Outcome

/-- The streams that plans make are sound and have as many rows as were asked for. -/
theorem stream_sound {plan : Plan} {entropy : Random.Source} {rows : Nat} {s : Stream}
    (h : plan.stream entropy rows = .ok s) : s.Sound ∧ s.remaining = rows := by
  obtain ⟨stripes, offsets, houtcome, rfl⟩ := stream_eq_ok h
  exact ⟨houtcome.sound, rfl⟩

/-! ### Plans with a seed -/

/-- A plan with a seed takes nothing from entropy. -/
theorem stream_of_seed {plan : Plan} (hseed : plan.seed ≠ none) (entropy entropy' : Random.Source)
    (rows : Nat) : plan.stream entropy rows = plan.stream entropy' rows := by
  have hsource : plan.source entropy = plan.source entropy' := by
    rw [source, source]
    cases hs : plan.seed with
    | none => exact absurd hs hseed
    | some seed => rfl
  rw [stream, stream, hsource]

/-- Every row of a plan with a seed has a seed. -/
theorem seed_ne_none {plan : Plan} (hseed : plan.seed ≠ none) {entropy : Random.Source} {rows : Nat}
    {s : Stream} (h : plan.stream entropy rows = .ok s) {spec : RowSpec} (hspec : spec ∈ s.toList) :
    spec.seed ≠ none := by
  have hnext : s.nextSeed = plan.seed.map (· + 1) := by
    obtain ⟨stripes, offsets, -, rfl⟩ := stream_eq_ok h
    rfl
  rw [(stream_sound h).1.toList_eq] at hspec
  obtain ⟨i, -, rfl⟩ := List.mem_map.mp hspec
  rw [Stream.specAt, hnext]
  simpa using hseed

end Plan

end RowIds

end SeededRows
