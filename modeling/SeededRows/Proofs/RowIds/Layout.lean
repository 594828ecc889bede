/-
  SeededRows.Proofs.RowIds.Layout

  The rows of a plan, call by call. A caller asks a stream for its next row again and again, also
  after the stream has ended; `emission?` is the answer to the call with a given number. The answers
  follow the two shuffles: one call after another goes through the offsets of a stripe and then to
  the next stripe, so ids never collide, and seeds count up from the seed of the plan.
-/
import SeededRows.Proofs.RowIds.Stream

namespace SeededRows.RowIds

/-! ## Asking again and again -/

namespace Stream

/-- The stream after a call. A call that gives no row leaves the stream as it was. -/
def rest (s : Stream) : Stream :=
  match s.next? with
  | some (_, rest) => rest
  | none => s

/-- The stream after a number of calls. -/
def after (s : Stream) (calls : Nat) : Stream := rest^[calls] s

/-- The answer to the call with a given number, counted from 0. -/
def emission? (s : Stream) (i : Nat) : Option RowSpec := (s.after i).next?.map Prod.fst

/-- The rows of the first calls. -/
def emissions (s : Stream) (calls : Nat) : List RowSpec := (List.range calls).filterMap s.emission?

variable {s : Stream}

theorem after_succ (s : Stream) (n : Nat) : s.after (n + 1) = (s.after n).rest :=
  Function.iterate_succ_apply' rest n s

theorem rest_of_none (h : s.next? = none) : s.rest = s := by
  simp only [rest, h]

theorem next?_of_empty (h : s.remaining = 0) : s.next? = none := by
  simp [next?, h]

/-- A call to a sound stream that has rows takes one of them. -/
theorem Sound.rest (h : s.Sound) (hr : s.remaining ≠ 0) :
    s.next? = some (s.specAt 0, s.rest) ∧ s.rest.Sound ∧ s.rest.remaining = s.remaining - 1 ∧
      ∀ i, s.rest.specAt i = s.specAt (i + 1) := by
  obtain ⟨rest, hnext, hrest⟩ := h.next hr
  have hnext' : s.next? = some (s.specAt 0, rest) := hnext
  have heq : s.rest = rest := by simp only [Stream.rest, hnext']
  rw [heq]
  exact ⟨hnext', hrest⟩

/-- What is left of a sound stream after some calls, not more than it has rows. -/
theorem Sound.after (h : s.Sound) {n : Nat} (hn : n ≤ s.remaining) :
    (s.after n).Sound ∧ (s.after n).remaining = s.remaining - n ∧
      ∀ i, (s.after n).specAt i = s.specAt (i + n) := by
  induction n with
  | zero => exact ⟨h, rfl, fun i => rfl⟩
  | succ n ih =>
    obtain ⟨hsound, hremaining, hspecs⟩ := ih (by omega)
    obtain ⟨-, hsound', hremaining', hspecs'⟩ := hsound.rest (by omega)
    rw [after_succ]
    refine ⟨hsound', by omega, ?_⟩
    intro i
    rw [hspecs', hspecs, Nat.add_right_comm, Nat.add_assoc]

/-- A stream that has ended stays as it is, however often it is asked. -/
theorem Sound.remaining_after (h : s.Sound) (n : Nat) : (s.after n).remaining = s.remaining - n := by
  by_cases hn : n ≤ s.remaining
  · exact (h.after hn).2.1
  · induction n with
    | zero => omega
    | succ n ih =>
      have hempty : (s.after n).remaining = 0 := by
        by_cases hn' : n ≤ s.remaining
        · have hleft := (h.after hn').2.1
          omega
        · have hleft := ih hn'
          omega
      rw [after_succ, rest_of_none (next?_of_empty hempty)]
      omega

/-- The answers of a sound stream: its rows in order, and nothing after them. -/
theorem Sound.emission?_eq (h : s.Sound) (i : Nat) :
    s.emission? i = if i < s.remaining then some (s.specAt i) else none := by
  by_cases hi : i < s.remaining
  · obtain ⟨hsound, hremaining, hspecs⟩ := h.after (Nat.le_of_lt hi)
    obtain ⟨hnext, -⟩ := hsound.rest (by omega)
    rw [emission?, hnext, if_pos hi, hspecs, Nat.zero_add]
    rfl
  · have hempty := h.remaining_after i
    rw [emission?, next?_of_empty (by omega), if_neg hi]
    rfl

theorem Sound.emissions_eq (h : s.Sound) {n : Nat} (hn : n ≤ s.remaining) :
    s.emissions n = (List.range n).map s.specAt := by
  rw [emissions, ← List.filterMap_eq_map]
  apply List.filterMap_congr
  intro i hi
  have hlt : i < s.remaining := Nat.lt_of_lt_of_le (List.mem_range.mp hi) hn
  rw [h.emission?_eq, if_pos hlt]
  rfl

end Stream

/-! ## The layout of a plan -/

/-- What a stream of a plan hands out when its shuffles came out as given. -/
structure LaidOut (plan : Plan) (rows : Nat) (stripes offsets : Array Nat) (s : Stream) : Prop where
  /-- The stream always knows how many rows are to come. -/
  hint : ∀ i, (s.after i).sizeHint = (rows - i, rows - i)
  /-- There is no row after the last one. -/
  ends : ∀ i, rows ≤ i → s.emission? i = none
  /-- Every call before has a row, whose id and seed come from its number. -/
  row : ∀ i, i < rows → ∃ spec, s.emission? i = some spec ∧
    stripes[i / plan.width.toNat]? = some spec.stripe.toNat ∧
    offsets[i % plan.width.toNat]? = some spec.offset.toNat ∧
    spec.seed = plan.seed.map (· + 1 + Int64.ofNat i)
  stripe_lt : ∀ i spec, s.emission? i = some spec → spec.stripe.toNat < rows ⌈/⌉ plan.width.toNat
  offset_lt : ∀ i spec, s.emission? i = some spec → spec.offset.toNat < plan.width.toNat
  ids_differ : ∀ i j a b, s.emission? i = some a → s.emission? j = some b → a.id = b.id → i = j
  seeds_differ : plan.seed ≠ none → ∀ i j a b, s.emission? i = some a → s.emission? j = some b →
    a.seed = b.seed → i = j
  /-- The seed of the plan itself seeds no row. -/
  seed_kept : plan.seed ≠ none → ∀ i spec, s.emission? i = some spec → spec.seed ≠ plan.seed
  /-- The offsets of a stripe, in the order of its rows: all of them, or as many as there are rows. -/
  offsets_of_stripe : ∀ q x, stripes[q]? = some x →
    ((s.emissions rows).filter fun spec => spec.stripe.toNat = x).map (fun spec => spec.offset.toNat) =
      offsets.toList.take (rows - q * plan.width.toNat)

/-- Numbers that count up do not come back within one round of a word. -/
theorem int64_ofNat_inj {i j : Nat} (hi : i < 2 ^ 64) (hj : j < 2 ^ 64)
    (h : Int64.ofNat i = Int64.ofNat j) : i = j := by
  have hbits := congrArg Int64.toBitVec h
  rw [Int64.toBitVec_ofNat', Int64.toBitVec_ofNat'] at hbits
  have hnat := congrArg BitVec.toNat hbits
  rw [BitVec.toNat_ofNat, BitVec.toNat_ofNat] at hnat
  omega

/-- The numbers below a bound that have a given quotient. -/
theorem filter_div_eq (n q : Nat) {w : Nat} (hw : 0 < w) :
    ((List.range n).filter fun i => i / w = q) = List.range' (q * w) (min w (n - q * w)) := by
  refine List.Pairwise.eq_of_mem_iff (List.pairwise_lt_range.filter _) List.pairwise_lt_range' ?_
  intro i
  have hquot : i / w = q ↔ q * w ≤ i ∧ i < q * w + w := by
    rw [Nat.div_eq_iff hw]
    omega
  simp only [List.mem_filter, List.mem_range, decide_eq_true_eq, List.mem_range'_1, hquot]
  omega

namespace Plan.Outcome

variable {plan : Plan} {rows : Nat} {stripes offsets : Array Nat}

/-- The stripe and the offset of a row come from its number, divided by the width. -/
theorem place_specAt (h : plan.Outcome rows stripes offsets) {i : Nat} (hi : i < rows) :
    stripes[i / plan.width.toNat]? = some ((plan.laid rows stripes offsets).specAt i).stripe.toNat ∧
      offsets[i % plan.width.toNat]? = some ((plan.laid rows stripes offsets).specAt i).offset.toNat := by
  have hroom := le_ceilDiv_mul rows h.width_pos
  rw [ceilDiv_eq] at hroom
  have hstripe : i / plan.width.toNat < stripes.size := by
    rw [h.stripes_size]
    exact (Nat.div_lt_iff_lt_mul h.width_pos).mpr (by omega)
  have hoffset : i % plan.width.toNat < offsets.size := by
    rw [h.offsets_size]
    exact Nat.mod_lt i h.width_pos
  have hx := h.sound.stripes_lt _ (Array.getElem_mem hstripe)
  have hy := h.sound.offsets_lt _ (Array.getElem_mem hoffset)
  have hid : ((plan.laid rows stripes offsets).specAt i).id.toNat =
      stripes[i / plan.width.toNat] * 2 ^ 32 + offsets[i % plan.width.toNat] := by
    rw [← RowSpec.toNat_idOf hx hy]
    show ((plan.laid rows stripes offsets).idAt (0 * offsets.size + 0 + i)).toNat = _
    rw [Nat.zero_mul, Nat.zero_add, Stream.idAt]
    simp only [laid, h.offsets_size, ← Array.getElem_eq_getD (h := hstripe),
      ← Array.getElem_eq_getD (h := hoffset)]
  simp only [stripeLimit, UInt32.size] at hy
  rw [RowSpec.toNat_stripe, RowSpec.toNat_offset, hid, Array.getElem?_eq_getElem hstripe,
    Array.getElem?_eq_getElem hoffset, Option.some.injEq, Option.some.injEq]
  omega

theorem seed_specAt (i : Nat) : ((plan.laid rows stripes offsets).specAt i).seed =
    plan.seed.map (· + 1 + Int64.ofNat i) := by
  show (plan.seed.map (· + 1)).map _ = _
  rw [Option.map_map]
  rfl

/-- The offsets of the rows in one stripe. -/
theorem offsets_of_stripe (h : plan.Outcome rows stripes offsets) {q x : Nat}
    (hx : stripes[q]? = some x) :
    (((plan.laid rows stripes offsets).emissions rows).filter fun spec => spec.stripe.toNat = x).map
        (fun spec => spec.offset.toNat) = offsets.toList.take (rows - q * plan.width.toNat) := by
  let s := plan.laid rows stripes offsets
  have hrows : s.emissions rows = (List.range rows).map s.specAt := h.sound.emissions_eq (Nat.le_refl rows)
  -- a row is in the stripe when its number has the right quotient
  have hquot : ∀ i ∈ List.range rows, decide ((s.specAt i).stripe.toNat = x) =
      decide (i / plan.width.toNat = q) := by
    intro i hi
    obtain ⟨hstripe, -⟩ := h.place_specAt (List.mem_range.mp hi)
    rw [decide_eq_decide]
    constructor
    · intro heq
      rw [heq] at hstripe
      rw [← Array.getElem?_toList] at hstripe hx
      obtain ⟨hlt, -⟩ := List.getElem?_eq_some_iff.mp hstripe
      exact (List.getElem?_inj hlt h.sound.stripes_nodup).mp (hstripe.trans hx.symm)
    · intro heq
      rw [heq, hx] at hstripe
      exact (Option.some.inj hstripe).symm
  rw [hrows, List.filter_map, List.map_map]
  simp only [Function.comp_def]
  rw [List.filter_congr hquot, filter_div_eq rows q h.width_pos]
  apply List.ext_getElem
  · simp only [List.length_map, List.length_range', List.length_take, Array.length_toList,
      h.offsets_size]
    omega
  · intro k hk hk'
    simp only [List.length_map, List.length_range'] at hk
    obtain ⟨-, hoffset⟩ := h.place_specAt (i := q * plan.width.toNat + k) (by omega)
    rw [Nat.mul_comm, Nat.mul_add_mod, Nat.mod_eq_of_lt (by omega)] at hoffset
    obtain ⟨hlt, hget⟩ := Array.getElem?_eq_some_iff.mp hoffset
    simp only [List.getElem_map, List.getElem_range', List.getElem_take, Array.getElem_toList,
      Nat.one_mul, Nat.mul_comm q, hget]
    rfl

theorem laidOut (h : plan.Outcome rows stripes offsets) (hrows : rows < 2 ^ 64) :
    LaidOut plan rows stripes offsets (plan.laid rows stripes offsets) := by
  let s := plan.laid rows stripes offsets
  have hemission : ∀ i spec, s.emission? i = some spec → i < rows ∧ spec = s.specAt i := by
    intro i spec hspec
    rw [h.sound.emission?_eq] at hspec
    split at hspec
    · rename_i hi
      exact ⟨hi, (Option.some.inj hspec).symm⟩
    · cases hspec
  refine ⟨?_, ?_, ?_, ?_, ?_, ?_, ?_, ?_, fun q x hx => h.offsets_of_stripe hx⟩
  · intro i
    rw [Stream.sizeHint, h.sound.remaining_after]
    rfl
  · intro i hi
    rw [h.sound.emission?_eq]
    exact if_neg (Nat.not_lt.mpr hi)
  · intro i hi
    refine ⟨s.specAt i, ?_, (h.place_specAt hi).1, (h.place_specAt hi).2, seed_specAt i⟩
    rw [h.sound.emission?_eq]
    exact if_pos hi
  · intro i spec hspec
    obtain ⟨hi, rfl⟩ := hemission i spec hspec
    exact h.stripe_lt (Array.mem_of_getElem? (h.place_specAt hi).1)
  · intro i spec hspec
    obtain ⟨hi, rfl⟩ := hemission i spec hspec
    exact h.offset_lt (Array.mem_of_getElem? (h.place_specAt hi).2)
  · intro i j a b ha hb heq
    obtain ⟨hi, rfl⟩ := hemission i a ha
    obtain ⟨hj, rfl⟩ := hemission j b hb
    exact h.sound.specAt_inj hi hj heq
  · intro hseed i j a b ha hb heq
    obtain ⟨hi, rfl⟩ := hemission i a ha
    obtain ⟨hj, rfl⟩ := hemission j b hb
    obtain ⟨seed, hsome⟩ := Option.ne_none_iff_exists'.mp hseed
    rw [seed_specAt, seed_specAt, hsome, Option.map_some, Option.map_some, Option.some.injEq,
      Int64.add_right_inj] at heq
    exact int64_ofNat_inj (by omega) (by omega) heq
  · intro hseed i spec hspec heq
    obtain ⟨hi, rfl⟩ := hemission i spec hspec
    obtain ⟨seed, hsome⟩ := Option.ne_none_iff_exists'.mp hseed
    rw [seed_specAt, hsome, Option.map_some, Option.some.injEq, Int64.add_assoc] at heq
    -- counting up comes back to the seed only after all words
    have hzero : Int64.ofNat (1 + i) = Int64.ofNat 0 := by
      rw [Int64.ofNat_add]
      exact Int64.add_eq_left.mp heq
    have hback := int64_ofNat_inj (by omega) (by omega) hzero
    omega

end Plan.Outcome

/-! ## Which plans have a stream -/

theorem Plan.stream_isOk_iff (plan : Plan) (entropy : Random.Source) (rows : Nat) :
    (∃ s, plan.stream entropy rows = .ok s) ↔ 1 ≤ plan.width.toNat ∧
      plan.width.toNat ≤ 2 ^ 32 ∧ rows ⌈/⌉ plan.width.toNat ≤ 2 ^ 32 := by
  constructor
  · rintro ⟨s, hs⟩
    obtain ⟨stripes, offsets, h, -⟩ := Plan.stream_eq_ok hs
    exact ⟨h.width_pos, h.width_le, h.count_le⟩
  · rintro ⟨hpos, hwidth, hcount⟩
    have hstripes : plan.stripes rows = .ok (Plan.ceilDiv rows plan.width.toNat) := by
      rw [← Plan.ceilDiv_eq] at hcount
      rw [Plan.stripes_eq, if_neg (by simp only [stripeLimit, UInt32.size]; omega),
        if_neg (by simp only [stripeLimit, UInt32.size]; omega)]
    rw [Plan.stream, hstripes]
    exact ⟨_, rfl⟩

/-- A plan has a stream for a number of rows exactly when its width and the number of its stripes
are in range. Every such stream is laid out from an outcome of the two shuffles, and from whichever
outcome a stream is laid out, it hands out each row of the layout once and then nothing more. -/
theorem Plan.stream_laid_out (plan : Plan) (rows : UInt64) :
    (∀ entropy, (∃ s, plan.stream entropy rows.toNat = .ok s) ↔ 1 ≤ plan.width.toNat ∧
      plan.width.toNat ≤ 2 ^ 32 ∧ rows.toNat ⌈/⌉ plan.width.toNat ≤ 2 ^ 32) ∧
    (∀ entropy s, plan.stream entropy rows.toNat = .ok s → ∃ stripes offsets,
      plan.Outcome rows.toNat stripes offsets ∧ s = plan.laid rows.toNat stripes offsets) ∧
    ∀ stripes offsets, plan.Outcome rows.toNat stripes offsets →
      LaidOut plan rows.toNat stripes offsets (plan.laid rows.toNat stripes offsets) := by
  refine ⟨fun entropy => plan.stream_isOk_iff entropy rows.toNat, fun entropy s => stream_eq_ok, ?_⟩
  intro stripes offsets h
  exact h.laidOut rows.toNat_lt

/-- Seven rows in stripes of three, from seed 5: the two full stripes and the first place of the
third one, in a shuffled order. -/
theorem Plan.stream_laid_out_seven : ∃ plan : Plan, plan = ⟨some 5, 3⟩ ∧
    (∃ s, plan.stream (.ofSeed 0) 7 = .ok s) ∧
    (plan.laid 7 #[2, 0, 1] #[1, 2, 0]).emission? 6 = some ⟨RowSpec.idOf 1 1, some 12⟩ ∧
    LaidOut plan 7 #[2, 0, 1] #[1, 2, 0] (plan.laid 7 #[2, 0, 1] #[1, 2, 0]) := by
  have h := Plan.stream_laid_out ⟨some 5, 3⟩ 7
  have houtcome : Plan.Outcome ⟨some 5, 3⟩ 7 #[2, 0, 1] #[1, 2, 0] :=
    ⟨by decide, by decide, by decide, .of_toList_perm (by decide), .of_toList_perm (by decide)⟩
  exact ⟨_, rfl, (h.1 _).mpr (by decide), rfl, h.2.2 _ _ houtcome⟩

end SeededRows.RowIds
