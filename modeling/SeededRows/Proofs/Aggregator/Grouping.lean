/-
  SeededRows.Proofs.Aggregator.Grouping

  The stock aggregators do not care how rows are grouped. Maps are combined key by key: counts are
  added, and collected rows may not meet. Such a combination is the same in either order and for any
  grouping, and where it fails for one grouping it fails for all. A collector whose tables meet names
  the smallest row id that they share.
-/
import SeededRows.Proofs.Aggregator.Kinds
import SeededRows.Proofs.Aggregator.Merging

namespace SeededRows

variable {σ : Type}

open Std (ExtTreeMap ExtTreeSet)

/-! ## Maps that are combined key by key -/

section Maps

variable {α β : Type} {cmp : α → α → Ordering} [Std.TransCmp cmp] [Std.LawfulEqCmp cmp]

/-- The entries of a map come of those of two others. -/
def Joins (op : Option β → Option β → Option (Option β)) (m n r : ExtTreeMap α β cmp) : Prop :=
  ∀ key : α, op m[key]? n[key]? = some r[key]?

/-- Maps are combined key by key; where that fails, it fails at a key. -/
structure KeyByKey (op : Option β → Option β → Option (Option β))
    (merge : ExtTreeMap α β cmp → ExtTreeMap α β cmp → Option (ExtTreeMap α β cmp)) : Prop where
  joins : ∀ {m n r}, merge m n = some r → Joins op m n r
  fails : ∀ {m n}, merge m n = none → ∃ key : α, op m[key]? n[key]? = none

variable {op : Option β → Option β → Option (Option β)}
  {merge : ExtTreeMap α β cmp → ExtTreeMap α β cmp → Option (ExtTreeMap α β cmp)}

theorem Joins.unique {m n r r' : ExtTreeMap α β cmp} (h : Joins op m n r) (h' : Joins op m n r') : r = r' :=
  ExtTreeMap.ext_getElem? fun key => Option.some.inj ((h key).symm.trans (h' key))

theorem KeyByKey.eq_some_iff (h : KeyByKey op merge) {m n r : ExtTreeMap α β cmp} :
    merge m n = some r ↔ Joins op m n r := by
  refine ⟨h.joins, fun hjoins => ?_⟩
  cases hmerge : merge m n with
  | some r' => rw [(h.joins hmerge).unique hjoins]
  | none =>
    obtain ⟨key, hkey⟩ := h.fails hmerge
    cases hkey.symm.trans (hjoins key)

theorem KeyByKey.comm (h : KeyByKey op merge) (hop : ∀ x y, op x y = op y x)
    (m n : ExtTreeMap α β cmp) : merge m n = merge n m := by
  refine Option.ext fun r => ?_
  rw [h.eq_some_iff, h.eq_some_iff, Joins, Joins]
  simp only [hop n[_]?]

theorem KeyByKey.assoc_right (h : KeyByKey op merge)
    (hop : ∀ x y z, (op x y).bind (op · z) = (op y z).bind (op x ·)) {l m n r s : ExtTreeMap α β cmp}
    (hlm : merge l m = some r) (hrn : merge r n = some s) :
    ∃ t, merge m n = some t ∧ merge l t = some s := by
  have hkey (key : α) : (op m[key]? n[key]?).bind (op l[key]? ·) = some s[key]? := by
    rw [← hop, h.joins hlm key, Option.bind_some, h.joins hrn key]
  cases hmn : merge m n with
  | none =>
    obtain ⟨key, hnone⟩ := h.fails hmn
    have hsome := hkey key
    rw [hnone] at hsome
    cases hsome
  | some t =>
    refine ⟨t, rfl, h.eq_some_iff.mpr fun key => ?_⟩
    rw [← hkey key, h.joins hmn key, Option.bind_some]

theorem KeyByKey.assoc (h : KeyByKey op merge) (hcomm : ∀ x y, op x y = op y x)
    (hop : ∀ x y z, (op x y).bind (op · z) = (op y z).bind (op x ·)) (l m n : ExtTreeMap α β cmp) :
    (merge l m).bind (merge · n) = (merge m n).bind (merge l ·) := by
  refine Option.ext fun s => ?_
  rw [Option.bind_eq_some_iff, Option.bind_eq_some_iff]
  constructor
  · rintro ⟨r, hlm, hrn⟩
    exact h.assoc_right hop hlm hrn
  · rintro ⟨t, hmn, hlt⟩
    -- the same from the other end
    rw [h.comm hcomm] at hmn hlt
    obtain ⟨r, hml, hnr⟩ := h.assoc_right hop hmn hlt
    exact ⟨r, h.comm hcomm l m ▸ hml, h.comm hcomm r n ▸ hnr⟩

end Maps

/-! ## Collected rows -/

/-- Rows of one id cannot be combined. -/
def apart (x y : Option (List Value)) : Option (Option (List Value)) :=
  match x, y with
  | none, y => some y
  | x, none => some x
  | some _, some _ => none

theorem apart_comm (x y : Option (List Value)) : apart x y = apart y x := by
  cases x <;> cases y <;> rfl

theorem apart_assoc (x y z : Option (List Value)) :
    (apart x y).bind (apart · z) = (apart y z).bind (apart x ·) := by
  cases x <;> cases y <;> cases z <;> rfl

namespace RowTable

/-- The sum of two tables, or what stops it. -/
def added (table : RowTable) (more : List (UInt64 × List Value)) : Except Stop RowTable :=
  (table.addAll more : Hook Unit RowTable) () |>.1

/-- Adding rows neither reads nor changes a state. -/
theorem addAll_eq (table : RowTable) (more : List (UInt64 × List Value)) (s : σ) :
    table.addAll more s = (table.added more, s) := by
  induction more generalizing table with
  | nil => rfl
  | cons e more ih =>
    rw [addAll, added, addAll]
    split
    · rfl
    · exact ih _

/-- The first id that a table has already stops. -/
theorem added_twice {table : RowTable} {more : List (UInt64 × List Value)}
    (hsorted : more.Pairwise fun e e' => e.1 < e'.1) (hmeet : ∃ e ∈ more, e.1 ∈ table) :
    ∃ id ∈ table, id ∈ more.map Prod.fst ∧ (∀ e ∈ more, e.1 ∈ table → id ≤ e.1) ∧
      table.added more = .error (.fault (Aggregator.collectedTwice id)) := by
  induction more generalizing table with
  | nil =>
    obtain ⟨e, he, -⟩ := hmeet
    cases he
  | cons first more ih =>
    obtain ⟨id, values⟩ := first
    obtain ⟨hfirst, hrest⟩ := List.pairwise_cons.mp hsorted
    rw [added, addAll]
    by_cases hid : id ∈ table
    · refine ⟨id, hid, List.mem_cons_self, ?_, by rw [if_pos (ExtTreeMap.mem_iff_contains.mp hid)]; rfl⟩
      rintro e he -
      rcases List.mem_cons.mp he with rfl | he
      · exact UInt64.le_refl _
      · exact UInt64.le_of_lt (hfirst e he)
    · rw [if_neg fun h => hid (ExtTreeMap.mem_iff_contains.mpr h)]
      -- the row that is added is none of those that follow
      have hsame : ∀ e ∈ more, (e.1 ∈ table.insert id values ↔ e.1 ∈ table) := by
        intro e he
        rw [ExtTreeMap.mem_insert, Std.LawfulEqCmp.compare_eq_iff_eq]
        exact or_iff_right fun heq => UInt64.lt_irrefl _ (heq ▸ hfirst e he)
      obtain ⟨e, he, hetable⟩ := hmeet
      have hemore : e ∈ more := by
        rcases List.mem_cons.mp he with rfl | he
        · exact absurd hetable hid
        · exact he
      obtain ⟨k, hk, hkmore, hleast, hstop⟩ := ih hrest ⟨e, hemore, (hsame e hemore).mpr hetable⟩
      obtain ⟨e', he', rfl⟩ := List.mem_map.mp hkmore
      refine ⟨e'.1, (hsame e' he').mp hk, List.mem_cons_of_mem _ hkmore, ?_, hstop⟩
      intro e'' he'' hetable''
      rcases List.mem_cons.mp he'' with rfl | he''
      · exact absurd hetable'' hid
      · exact hleast e'' he'' ((hsame e'' he'').mpr hetable'')

variable {table more : RowTable}

theorem addAll_toOption (table more : RowTable) (s : σ) :
    (table.addAll more.toList s).1.toOption = (table.added more.toList).toOption := by
  rw [addAll_eq]

theorem mem_keys {id : UInt64} : id ∈ more.toList.map Prod.fst ↔ id ∈ more := by
  rw [ExtTreeMap.map_fst_toList_eq_keys, ExtTreeMap.mem_keys]

/-- Tables whose ids differ are joined. -/
theorem added_apart (h : ∀ id, id ∈ table → id ∉ more) :
    ∃ sum, table.added more.toList = .ok sum ∧ Joins apart table more sum := by
  have hnew : ∀ e ∈ more.toList, table[e.1]? = none := by
    intro e he
    refine ExtTreeMap.getElem?_eq_none fun hmem => ?_
    exact h _ hmem (mem_keys.mp (List.mem_map_of_mem he))
  obtain ⟨sum, hadd, hsum⟩ := Aggregator.addAll_rows (σ := Unit) (Aggregator.keys_toList_nodup more) hnew
  refine ⟨sum, congrArg Prod.fst (hadd ()), fun id => ?_⟩
  have hlookup (values : List Value) :
      sum[id]? = some values ↔ table[id]? = some values ∨ more[id]? = some values := by
    rw [hsum, ExtTreeMap.mem_toList_iff_getElem?_eq_some]
  cases htable : table[id]? with
  | none =>
    rw [htable] at hlookup
    exact congrArg some (Option.ext fun values => by simpa using (hlookup values).symm)
  | some values =>
    have hmem : id ∈ table := ExtTreeMap.mem_iff_isSome_getElem?.mpr (htable ▸ rfl)
    rw [ExtTreeMap.getElem?_eq_none (h id hmem), (hlookup values).mpr (.inl htable)]
    rfl

/-- Tables that share ids are not added, because of the smallest of these. -/
theorem added_meet {id : UInt64} (htable : id ∈ table) (hmore : id ∈ more) :
    ∃ id ∈ table, id ∈ more ∧ (∀ k ∈ table, k ∈ more → id ≤ k) ∧
      table.added more.toList = .error (.fault (Aggregator.collectedTwice id)) := by
  have hsorted : more.toList.Pairwise fun e e' => e.1 < e'.1 :=
    (ExtTreeMap.ordered_keys_toList (t := more)).imp fun h => compareOfLessAndEq_eq_lt.mp h
  obtain ⟨e, he, rfl⟩ := List.mem_map.mp (mem_keys.mpr hmore)
  obtain ⟨k, hk, hkmore, hleast, hstop⟩ := added_twice hsorted ⟨e, he, htable⟩
  refine ⟨k, hk, mem_keys.mp hkmore, fun k' hk' hkmore' => ?_, hstop⟩
  obtain ⟨e', he', rfl⟩ := List.mem_map.mp (mem_keys.mpr hkmore')
  exact hleast e' he' hk'

/-- Tables can be added when no id is in both. -/
theorem added_joins : KeyByKey apart fun table more : RowTable => (table.added more.toList).toOption where
  joins {table more sum} hsum := by
    by_cases hmeet : ∃ id, id ∈ table ∧ id ∈ more
    · obtain ⟨id, htable, hmore⟩ := hmeet
      obtain ⟨k, -, -, -, hstop⟩ := added_meet htable hmore
      rw [hstop] at hsum
      cases hsum
    · obtain ⟨sum', hadd, hjoins⟩ := added_apart fun id htable hmore => hmeet ⟨id, htable, hmore⟩
      rw [hadd] at hsum
      cases hsum
      exact hjoins
  fails {table more} hnone := by
    by_contra hall
    have hapart : ∀ id, id ∈ table → id ∉ more := by
      intro id htable hmore
      obtain ⟨x, hx⟩ := Option.isSome_iff_exists.mp (ExtTreeMap.mem_iff_isSome_getElem?.mp htable)
      obtain ⟨y, hy⟩ := Option.isSome_iff_exists.mp (ExtTreeMap.mem_iff_isSome_getElem?.mp hmore)
      exact hall ⟨id, by rw [hx, hy]; rfl⟩
    obtain ⟨sum, hadd, -⟩ := added_apart hapart
    rw [hadd] at hnone
    cases hnone

/-- Two tables are added alike in either order, and stopped alike. -/
theorem added_comm (table more : RowTable) : table.added more.toList = more.added table.toList := by
  by_cases hmeet : ∃ id, id ∈ table ∧ id ∈ more
  · obtain ⟨id, htable, hmore⟩ := hmeet
    obtain ⟨k, hk, hk', hleast, hstop⟩ := added_meet htable hmore
    obtain ⟨l, hl, hl', hleast', hstop'⟩ := added_meet hmore htable
    rw [hstop, hstop', UInt64.le_antisymm (hleast l hl' hl) (hleast' k hk' hk)]
  · obtain ⟨sum, hadd, hjoins⟩ := added_apart fun id htable hmore => hmeet ⟨id, htable, hmore⟩
    obtain ⟨sum', hadd', hjoins'⟩ := added_apart fun id hmore htable => hmeet ⟨id, htable, hmore⟩
    have hsame : Joins apart table more sum' := fun id => (apart_comm _ _).trans (hjoins' id)
    rw [hadd, hadd', hjoins.unique hsame]

theorem addAll_comm (table more : RowTable) (s : σ) :
    table.addAll more.toList s = more.addAll table.toList s := by
  rw [addAll_eq, addAll_eq, added_comm]

/-- Adding stops just for tables that share an id, with the smallest one. -/
theorem added_eq_error_iff {stop : Stop} : table.added more.toList = .error stop ↔
    ∃ id ∈ table, id ∈ more ∧ (∀ k ∈ table, k ∈ more → id ≤ k) ∧
      stop = .fault (Aggregator.collectedTwice id) := by
  by_cases hmeet : ∃ id, id ∈ table ∧ id ∈ more
  · obtain ⟨id, htable, hmore⟩ := hmeet
    obtain ⟨k, hk, hk', hleast, hstop⟩ := added_meet htable hmore
    rw [hstop, Except.error.injEq]
    constructor
    · rintro rfl
      exact ⟨k, hk, hk', hleast, rfl⟩
    · rintro ⟨l, hl, hl', hleast', rfl⟩
      rw [UInt64.le_antisymm (hleast l hl hl') (hleast' k hk hk')]
  · obtain ⟨sum, hadd, -⟩ := added_apart fun id htable hmore => hmeet ⟨id, htable, hmore⟩
    rw [hadd]
    refine iff_of_false (fun heq => nomatch heq) ?_
    rintro ⟨id, htable, hmore, -⟩
    exact hmeet ⟨id, htable, hmore⟩

end RowTable

/-! ## Histograms -/

/-- The sum of two counts, if it fits a word. -/
def countSum (m n : Nat) : Option Nat := if m + n < UInt64.size then some (m + n) else none

theorem countSum_comm (m n : Nat) : countSum m n = countSum n m := by
  rw [countSum, countSum, Nat.add_comm]

theorem countSum_bind (l m n : Nat) : (countSum l m).bind (countSum · n) =
    if l + m + n < UInt64.size then some (l + m + n) else none := by
  by_cases hfirst : l + m < UInt64.size
  · rw [countSum, if_pos hfirst]
    rfl
  · rw [countSum, if_neg hfirst, if_neg (by omega)]
    rfl

theorem countSum_assoc (l m n : Nat) :
    (countSum l m).bind (countSum · n) = (countSum m n).bind (countSum l ·) := by
  simp only [countSum_comm l]
  rw [countSum_comm m l, countSum_bind, countSum_bind, Nat.add_comm l m, Nat.add_right_comm]

theorem addCounts_comm (m n : Nat) : (Hook.addCounts m n : Hook σ Nat) = Hook.addCounts n m := by
  rw [Hook.addCounts, Hook.addCounts, Nat.add_comm]

theorem addCounts_toOption (m n : Nat) (s : σ) : (Hook.addCounts m n s).1.toOption = countSum m n := by
  rw [Hook.addCounts, countSum]
  split <;> rfl

/-- A sum of counts that leaves its range. -/
theorem addCounts_overflow {m n : Nat} (h : ¬ m + n < UInt64.size) (s : σ) :
    Hook.addCounts m n s = (.error (.crash ⟨some "attempt to add with overflow"⟩), s) := by
  rw [Hook.addCounts, if_neg h]
  rfl

/-- The sum of the counts of a text, either of which may be missing. -/
def entrySum (x y : Option Nat) : Option (Option Nat) :=
  if x.getD 0 + y.getD 0 < UInt64.size then some (x.merge Nat.add y) else none

theorem merge_add_comm (x y : Option Nat) : x.merge Nat.add y = y.merge Nat.add x := by
  have : Std.Commutative Nat.add := ⟨Nat.add_comm⟩
  exact Std.Commutative.comm x y

theorem merge_add_assoc (x y z : Option Nat) :
    (x.merge Nat.add y).merge Nat.add z = x.merge Nat.add (y.merge Nat.add z) := by
  have : Std.Associative Nat.add := ⟨Nat.add_assoc⟩
  exact Std.Associative.assoc x y z

theorem getD_merge_add (x y : Option Nat) : (x.merge Nat.add y).getD 0 = x.getD 0 + y.getD 0 := by
  cases x <;> cases y <;> simp

theorem entrySum_comm (x y : Option Nat) : entrySum x y = entrySum y x := by
  rw [entrySum, entrySum, Nat.add_comm, merge_add_comm]

theorem entrySum_bind (x y z : Option Nat) : (entrySum x y).bind (entrySum · z) =
    if x.getD 0 + y.getD 0 + z.getD 0 < UInt64.size then some ((x.merge Nat.add y).merge Nat.add z)
    else none := by
  by_cases hfirst : x.getD 0 + y.getD 0 < UInt64.size
  · rw [entrySum, if_pos hfirst, Option.bind_some, entrySum, getD_merge_add]
  · rw [entrySum, if_neg hfirst, if_neg (by omega)]
    rfl

theorem entrySum_assoc (x y z : Option Nat) :
    (entrySum x y).bind (entrySum · z) = (entrySum y z).bind (entrySum x ·) := by
  simp only [entrySum_comm x]
  rw [entrySum_comm y x, entrySum_bind, entrySum_bind, merge_add_comm (y.merge Nat.add z) x, ← merge_add_assoc,
    Nat.add_comm (y.getD 0 + z.getD 0), ← Nat.add_assoc]

namespace Histogram

/-- The sum of two histograms, or what stops it. -/
def added (h : Histogram) (more : List (String × Nat)) : Except Stop Histogram :=
  (h.addAll more : Hook Unit Histogram) () |>.1

/-- Adding counts neither reads nor changes a state. -/
theorem addAll_eq (h : Histogram) (more : List (String × Nat)) (s : σ) :
    h.addAll more s = (h.added more, s) := by
  induction more generalizing h with
  | nil => rfl
  | cons e more ih =>
    obtain ⟨key, n⟩ := e
    rw [addAll, added, addAll]
    by_cases hfit : h.getD key 0 + n < UInt64.size
    · rw [Hook.bind_of_ok (Aggregator.addCounts_apply hfit s), Hook.bind_of_ok (Aggregator.addCounts_apply hfit ())]
      exact ih _
    · rw [Hook.bind_of_error (addCounts_overflow hfit s), Hook.bind_of_error (addCounts_overflow hfit ())]

/-- A count that would leave its range stops. -/
theorem added_overflow {h : Histogram} {more : List (String × Nat)} (hdistinct : (more.map Prod.fst).Nodup)
    (hover : ∃ e ∈ more, ¬ h.getD e.1 0 + e.2 < UInt64.size) : ∃ stop, h.added more = .error stop := by
  induction more generalizing h with
  | nil =>
    obtain ⟨e, he, -⟩ := hover
    cases he
  | cons first more ih =>
    obtain ⟨key, n⟩ := first
    obtain ⟨hkey, hdistinct⟩ := List.nodup_cons.mp hdistinct
    rw [added, addAll]
    by_cases hfit : h.getD key 0 + n < UInt64.size
    · rw [Hook.bind_of_ok (Aggregator.addCounts_apply hfit ())]
      obtain ⟨e, he, hover⟩ := hover
      have hemore : e ∈ more := by
        rcases List.mem_cons.mp he with rfl | he
        · exact absurd hfit hover
        · exact he
      refine ih hdistinct ⟨e, hemore, ?_⟩
      -- the count of another text has not changed
      have hmem : e.1 ∈ more.map Prod.fst := List.mem_map_of_mem hemore
      have hne : key ≠ e.1 := fun heq => hkey (heq ▸ hmem)
      rwa [ExtTreeMap.getD_eq_getD_getElem?, Aggregator.getElem?_insert_ite, if_neg hne,
        ← ExtTreeMap.getD_eq_getD_getElem?]
    · rw [Hook.bind_of_error (addCounts_overflow hfit ())]
      exact ⟨_, rfl⟩

/-- No count of two histograms leaves its range when they are added. -/
def Fit (h k : Histogram) : Prop := ∀ key, h.getD key 0 + k.getD key 0 < UInt64.size

variable {h k : Histogram}

theorem mem_toList_getD {key : String} {n : Nat} (hmem : (key, n) ∈ k.toList) : k.getD key 0 = n := by
  rw [ExtTreeMap.getD_eq_getD_getElem?, ExtTreeMap.mem_toList_iff_getElem?_eq_some.mp hmem]
  rfl

theorem Fit.symm (hfit : Fit h k) : Fit k h := fun key => Nat.add_comm _ _ ▸ hfit key

/-- Histograms are added where their counts fit. -/
theorem added_fit (hfit : Fit h k) : ∃ sum, h.added k.toList = .ok sum ∧ Joins entrySum h k sum := by
  have hfits : ∀ e ∈ k.toList, h.getD e.1 0 + e.2 < UInt64.size := by
    intro e he
    rw [← mem_toList_getD he]
    exact hfit e.1
  obtain ⟨sum, hadd, hin, hout⟩ :=
    Aggregator.addAll_counts (σ := Unit) (Aggregator.keys_toList_nodup k) hfits
  refine ⟨sum, congrArg Prod.fst (hadd ()), fun key => ?_⟩
  have hkey := hfit key
  rw [ExtTreeMap.getD_eq_getD_getElem?, ExtTreeMap.getD_eq_getD_getElem?] at hkey
  rw [entrySum, if_pos hkey]
  cases hk : k[key]? with
  | none =>
    have hnone : ∀ n, (key, n) ∉ k.toList := by
      intro n hmem
      cases hk.symm.trans (ExtTreeMap.mem_toList_iff_getElem?_eq_some.mp hmem)
    rw [hout key hnone, Option.merge_none_right]
  | some n =>
    rw [hin key n (ExtTreeMap.mem_toList_iff_getElem?_eq_some.mpr hk), ExtTreeMap.getD_eq_getD_getElem?]
    cases h[key]? <;> simp

/-- A histogram whose counts fit a word. -/
def Counted (h : Histogram) : Prop := ∀ key, h.getD key 0 < UInt64.size

/-- What is added to a histogram of counts fits. -/
theorem fit_of_added {sum : Histogram} (hcounted : h.Counted) (hadd : h.added k.toList = .ok sum) :
    Fit h k := by
  by_contra hunfit
  obtain ⟨key, hkey⟩ := not_forall.mp hunfit
  cases hk : k[key]? with
  | none =>
    rw [ExtTreeMap.getD_eq_getD_getElem? (t := k), hk] at hkey
    exact hkey (hcounted key)
  | some n =>
    have hmem := ExtTreeMap.mem_toList_iff_getElem?_eq_some.mpr hk
    rw [mem_toList_getD hmem] at hkey
    obtain ⟨stop, hstop⟩ := added_overflow (Aggregator.keys_toList_nodup k) ⟨_, hmem, hkey⟩
    cases hstop.symm.trans hadd

theorem all_lt_iff : (h.toList.all fun e => e.2 < UInt64.size) = true ↔ h.Counted := by
  rw [List.all_eq_true]
  constructor
  · intro hall key
    cases hkey : h[key]? with
    | none =>
      rw [ExtTreeMap.getD_eq_getD_getElem?, hkey]
      decide
    | some n =>
      have hmem := ExtTreeMap.mem_toList_iff_getElem?_eq_some.mpr hkey
      rw [mem_toList_getD hmem]
      exact of_decide_eq_true (hall _ hmem)
  · intro hcounted e he
    have hlt := hcounted e.1
    rw [mem_toList_getD he] at hlt
    exact decide_eq_true hlt

/-- The sum of two histograms of counts, if it is one. -/
def sum? (h k : Histogram) : Option Histogram :=
  if h.toList.all fun e => e.2 < UInt64.size then (h.added k.toList).toOption else none

theorem sum?_of_counted (hcounted : h.Counted) : sum? h k = (h.added k.toList).toOption := by
  rw [sum?, if_pos (all_lt_iff.mpr hcounted)]

theorem addAll_toOption (hcounted : h.Counted) {s : σ} :
    (h.addAll k.toList s).1.toOption = sum? h k := by
  rw [addAll_eq, sum?_of_counted hcounted]

theorem sum?_joins : KeyByKey entrySum sum? where
  joins {h k sum} hsum := by
    have hcounted : Counted h := by
      by_contra hnot
      rw [sum?, if_neg (fun hall => hnot (all_lt_iff.mp hall))] at hsum
      cases hsum
    rw [sum?_of_counted hcounted] at hsum
    cases hadd : added h k.toList with
    | error stop =>
      rw [hadd] at hsum
      cases hsum
    | ok sum' =>
      rw [hadd] at hsum
      cases hsum
      obtain ⟨sum'', hadd', hjoins⟩ := added_fit (fit_of_added hcounted hadd)
      cases hadd'.symm.trans hadd
      exact hjoins
  fails {h k} hnone := by
    by_contra hall
    have hfit : Fit h k := by
      intro key
      by_contra hkey
      rw [ExtTreeMap.getD_eq_getD_getElem?, ExtTreeMap.getD_eq_getD_getElem?] at hkey
      exact hall ⟨key, by rw [entrySum, if_neg hkey]⟩
    obtain ⟨sum, hadd, -⟩ := added_fit hfit
    rw [sum?_of_counted fun key => Nat.lt_of_le_of_lt (Nat.le_add_right _ _) (hfit key), hadd] at hnone
    cases hnone

/-- Two histograms whose counts fit are added alike in either order. -/
theorem added_comm (hfit : Fit h k) : h.added k.toList = k.added h.toList := by
  obtain ⟨sum, hadd, hjoins⟩ := added_fit hfit
  obtain ⟨sum', hadd', hjoins'⟩ := added_fit hfit.symm
  have hsame : Joins entrySum h k sum' := fun key => (entrySum_comm _ _).trans (hjoins' key)
  rw [hadd, hadd', hjoins.unique hsame]

theorem addAll_comm (hfit : Fit h k) (s : σ) : h.addAll k.toList s = k.addAll h.toList s := by
  rw [addAll_eq, addAll_eq, added_comm hfit]

theorem counted_of_sum? {sum : Histogram} (hsum : sum? h k = some sum) : sum.Counted := by
  intro key
  have hkey := sum?_joins.joins hsum key
  rw [entrySum] at hkey
  split at hkey
  · rename_i hlt
    rw [← getD_merge_add, Option.some.inj hkey] at hlt
    rwa [ExtTreeMap.getD_eq_getD_getElem?]
  · cases hkey

end Histogram

/-! ## Sets of ids -/

theorem IdSet.addAll_comm (ids more : IdSet) : ids.addAll more.toList = more.addAll ids.toList := by
  refine ExtTreeSet.ext_mem fun id => ?_
  rw [Aggregator.mem_addAll, Aggregator.mem_addAll, ExtTreeSet.mem_toList, ExtTreeSet.mem_toList, or_comm]

theorem IdSet.addAll_assoc (ids more others : IdSet) :
    (ids.addAll more.toList).addAll others.toList = ids.addAll (more.addAll others.toList).toList := by
  refine ExtTreeSet.ext_mem fun id => ?_
  simp only [Aggregator.mem_addAll, ExtTreeSet.mem_toList, or_assoc]

/-! ## The stock aggregators -/

namespace Aggregator

/-- Combining counts of rows. -/
def countMerging (σ : Type) : (count σ).Merging where
  Ready _ := True
  Valid _ := True
  value _ := some (1 : Nat)
  merge (m n : Nat) := countSum m n
  start_ready _ := trivial
  map_eq _ := rfl
  map_ready _ := trivial
  value_valid _ := trivial
  reduce_eq _ _ := addCounts_toOption _ _ _
  reduce_ready _ := trivial
  merge_valid _ _ _ := trivial
  comm := countSum_comm
  assoc := countSum_assoc

theorem fieldOf_toOption (name field : String) (row : Row) (s : σ) :
    (fieldOf name field row s).1.toOption = row.value? field := by
  cases hv : row.value? field with
  | none => rw [fieldOf_none hv]; rfl
  | some v => rw [fieldOf_some hv]; rfl

theorem fieldsOf_toOption (name : String) (fields : List String) (row : Row) (s : σ) :
    (fieldsOf name fields row s).1.toOption = row.values? fields := by
  cases hvs : row.values? fields with
  | none =>
    obtain ⟨field, hstop⟩ := fieldsOf_none name hvs s
    rw [hstop]
    rfl
  | some vs => rw [fieldsOf_some hvs]; rfl

/-- A result that is only passed on. -/
theorem toOption_map {α β : Type} (hook : Hook σ α) (f : α → β) (s : σ) :
    ((do let v ← hook; return f v : Hook σ β) s).1.toOption = (hook s).1.toOption.map f := by
  rcases hr : hook s with ⟨stop | v, s'⟩
  · rw [Hook.bind_of_error hr]
    rfl
  · rw [Hook.bind_of_ok hr]
    rfl

/-- Combining histograms. -/
def histogramMerging (σ : Type) (field : String) : (histogram σ field).Merging where
  Ready _ := True
  Valid := Histogram.Counted
  value row := (row.value? field).map fun v => (ExtTreeMap.empty.insert v.cell 1 : Histogram)
  merge := Histogram.sum?
  start_ready _ := trivial
  map_eq _ := (toOption_map _ _ _).trans (congrArg (Option.map _) (fieldOf_toOption _ field _ _))
  map_ready _ := trivial
  value_valid {row h} hvalue := by
    obtain ⟨v, -, rfl⟩ := Option.map_eq_some_iff.mp hvalue
    intro key
    have hpos : 0 < UInt64.size := by decide
    rw [ExtTreeMap.getD_eq_getD_getElem?, getElem?_insert_ite]
    split
    · decide
    · exact hpos
  reduce_eq hh _ := Histogram.addAll_toOption hh
  reduce_ready _ := trivial
  merge_valid _ _ := Histogram.counted_of_sum?
  comm := Histogram.sum?_joins.comm entrySum_comm
  assoc := Histogram.sum?_joins.assoc entrySum_comm entrySum_assoc

/-- Combining tables of collected rows. -/
def collectMerging (σ : Type) (fields : List String) : (collect σ fields).Merging where
  Ready _ := True
  Valid _ := True
  value row := (row.values? fields).map fun vs => (ExtTreeMap.empty.insert row.id vs : RowTable)
  merge := fun (table more : RowTable) => (table.added more.toList).toOption
  start_ready _ := trivial
  map_eq _ := (toOption_map _ _ _).trans (congrArg (Option.map _) (fieldsOf_toOption _ fields _ _))
  map_ready _ := trivial
  value_valid _ := trivial
  reduce_eq _ _ := RowTable.addAll_toOption _ _ _
  reduce_ready _ := trivial
  merge_valid _ _ _ := trivial
  comm := RowTable.added_joins.comm apart_comm
  assoc := RowTable.added_joins.assoc apart_comm apart_assoc

/-- Combining sets of ids. -/
def matchingMerging (σ : Type) (field : String) (target : Value) : (matching σ field target).Merging where
  Ready _ := True
  Valid _ := True
  value row := (row.value? field).map fun v =>
    (if isMatch target v then ExtTreeSet.empty.insert row.id else .empty : IdSet)
  merge := fun (ids more : IdSet) => some (ids.addAll more.toList)
  start_ready _ := trivial
  map_eq _ := (toOption_map _ _ _).trans (congrArg (Option.map _) (fieldOf_toOption _ field _ _))
  map_ready _ := trivial
  value_valid _ := trivial
  reduce_eq _ _ := rfl
  reduce_ready _ := trivial
  merge_valid _ _ _ := trivial
  comm ids more := congrArg some (IdSet.addAll_comm ids more)
  assoc ids more others := congrArg some (IdSet.addAll_assoc ids more others)

/-- Writing rows leaves a table open, whether it succeeds or not. -/
theorem writeRow_keeps (fields : List String) (row : Row) :
    (writeRow fields row).Keeps fun files => files.current.isSome := by
  intro files hopen
  cases hvs : row.values? fields with
  | none =>
    obtain ⟨field, hstop⟩ := fieldsOf_none csvName hvs files
    rw [writeRow, Hook.bind_of_error hstop]
    exact hopen
  | some vs =>
    obtain ⟨files', hwrite, hopen'⟩ := writeRow_ok hopen hvs
    rw [hwrite]
    exact hopen'

theorem addCounts_keeps {P : σ → Prop} (m n : Nat) : (Hook.addCounts m n).Keeps P := by
  intro s hs
  rwa [addCounts_state]

theorem writeRow_toOption {fields : List String} {row : Row} {files : CsvFiles}
    (hopen : files.current.isSome) :
    (writeRow fields row files).1.toOption = (row.values? fields).map fun _ => 1 := by
  cases hvs : row.values? fields with
  | none =>
    obtain ⟨field, hstop⟩ := fieldsOf_none csvName hvs files
    rw [writeRow, Hook.bind_of_error hstop]
    rfl
  | some vs =>
    obtain ⟨files', hwrite, -⟩ := writeRow_ok hopen hvs
    rw [hwrite]
    rfl

/-- Combining counts of written rows, where the files are a part of the state. -/
def csvMerging {get : σ → CsvFiles} {set : CsvFiles → σ → σ} (part : ∀ files s, get (set files s) = files)
    (disk : Disk) (target : CsvTarget) (fields : List String) :
    ((csvRows disk target fields).zoom get set).Merging where
  Ready s := (get s).current.isSome
  Valid _ := True
  value row := (row.values? fields).map fun _ => (1 : Nat)
  merge (m n : Nat) := countSum m n
  start_ready h := openCsv_ready (Hook.of_zoom part h)
  map_eq hready := writeRow_toOption hready
  map_ready := (writeRow_keeps fields _).zoom part _
  value_valid _ := trivial
  reduce_eq {m n s} _ _ := addCounts_toOption (σ := CsvFiles) m n (get s)
  reduce_ready {m n s} :=
    (addCounts_keeps (P := fun files : CsvFiles => files.current.isSome) m n).zoom part s
  merge_valid _ _ _ := trivial
  comm := countSum_comm
  assoc := countSum_assoc

/-- Every stock aggregator combines its accumulators in any order and grouping. -/
theorem IsStock.exists_merging {a : Aggregator σ} (h : a.IsStock) : Nonempty a.Merging := by
  cases h with
  | count => exact ⟨countMerging σ⟩
  | histogram field => exact ⟨histogramMerging σ field⟩
  | collect fields => exact ⟨collectMerging σ fields⟩
  | matching field target => exact ⟨matchingMerging σ field target⟩
  | csvRows part disk target fields => exact ⟨csvMerging part disk target fields⟩

end Aggregator

/-- The counts in two accumulators fit a word when they are added. -/
def Accumulator.Kind.Fit : (k : Kind) → k.Carrier → k.Carrier → Prop
  | count, m, n => Nat.add m n < UInt64.size
  | histogram, h, k => Histogram.Fit h k
  | _, _, _ => True

namespace Aggregator

/-- Every stock aggregator combines two accumulators whose counts fit alike in either order. -/
theorem IsStock.reduce_comm {a : Aggregator σ} (h : a.IsStock) {v w : a.output.Carrier}
    (hfit : a.output.Fit v w) (s : σ) : a.reduce v w s = a.reduce w v s := by
  cases h with
  | count => exact congrFun (addCounts_comm v w) s
  | histogram field => exact Histogram.addAll_comm hfit s
  | collect fields => exact RowTable.addAll_comm v w s
  | matching field target =>
    exact congrArg (fun ids : IdSet => ((Except.ok ids : Except Stop IdSet), s)) (IdSet.addAll_comm v w)
  | @csvRows get set part disk target fields =>
    exact congrArg (fun hook : Hook CsvFiles Nat => hook.zoom get set s) (addCounts_comm v w)

/-- The stock aggregators do not care about grouping. Take some rows, permuted and cut into batches that
are not empty, copies that were set up to map these, and any copy to fold what comes of them: then
all of this succeeds just when a copy maps the rows in one batch, and with the same accumulator. Two
accumulators are reduced alike in either order. A collector stops just when tables share an id,
and names the smallest such id. -/
theorem grouping_free {a : Aggregator σ} (h : a.IsStock) :
    (∀ (rows : List Row) (work : List (Copy σ × List Row)) (whole final : Copy σ) (acc : Accumulator),
      rows ≠ [] → (work.map Prod.snd).flatten.Perm rows → (∀ w ∈ work, w.2 ≠ []) →
      (∀ w ∈ work, w.1.AtWork a) → whole.AtWork a → final.aggregator = a →
      ((∃ accs, Copy.Results work accs ∧ (final.reduce accs).1 = .ok acc) ↔
        (whole.mapReduce rows).1 = .ok acc)) ∧
    (∀ v w s, a.output.Fit v w → a.reduce v w s = a.reduce w v s) ∧
    ∀ (fields : List String) (table more : RowTable) (s : σ) (stop : Stop),
      ((collect σ fields).reduce table more s).1 = .error stop ↔
        ∃ id ∈ table, id ∈ more ∧ (∀ k ∈ table, k ∈ more → id ≤ k) ∧ stop = .fault (collectedTwice id) := by
  obtain ⟨M⟩ := h.exists_merging
  refine ⟨?_, fun v w s hfit => h.reduce_comm hfit s, ?_⟩
  · intro rows work whole final acc hne hperm hbatches hwork hwhole hfinal
    exact M.grouping hne hperm hbatches hwork hwhole hfinal
  · intro fields table more s stop
    rw [← RowTable.added_eq_error_iff]
    exact Eq.congr_left (congrArg Prod.fst (RowTable.addAll_eq table more.toList s))

/-- A collector of row ids, and a copy of it that is set up. -/
def idCollector : Copy Unit := (Copy.fresh (collect Unit ["id"]) ()).start.2

/-- Three rows in two batches are collected as in one, and a row that comes again is not. -/
theorem grouping_free_three :
    (∃ acc accs, (idCollector.mapReduce [.empty 1, .empty 2, .empty 3]).1 = .ok acc ∧
      Copy.Results [(idCollector, [.empty 3, .empty 1]), (idCollector, [.empty 2])] accs ∧
      (idCollector.reduce accs).1 = .ok acc) ∧
    ∀ acc accs, Copy.Results [(idCollector, [.empty 3]), (idCollector, [.empty 2, .empty 3])] accs →
      (idCollector.reduce accs).1 ≠ .ok acc := by
  have hatWork : idCollector.AtWork (collect Unit ["id"]) :=
    .start (c := Copy.fresh (collect Unit ["id"]) ()) rfl rfl
  have hcopies : ∀ {rows others : List Row}, ∀ w ∈ [(idCollector, rows), (idCollector, others)],
      w.1.AtWork (collect Unit ["id"]) := by
    intro rows others w hw
    simp only [List.mem_cons, List.not_mem_nil, or_false] at hw
    rcases hw with rfl | rfl <;> exact hatWork
  obtain ⟨hgroup, -, -⟩ := grouping_free (IsStock.collect (σ := Unit) ["id"])
  constructor
  · obtain ⟨acc, hacc⟩ : ∃ acc, (idCollector.mapReduce [.empty 1, .empty 2, .empty 3]).1 = .ok acc := ⟨_, rfl⟩
    obtain ⟨accs, hresults, hreduce⟩ := (hgroup _ [(idCollector, [.empty 3, .empty 1]), (idCollector, [.empty 2])]
      idCollector idCollector acc (by simp) (@List.perm_append_comm Row [.empty 3] [.empty 1, .empty 2]) (by simp) hcopies hatWork
      rfl).mpr hacc
    exact ⟨acc, accs, hacc, hresults, hreduce⟩
  · intro acc accs hresults hreduce
    have hwhole := (hgroup [.empty 3, .empty 2, .empty 3] _ idCollector idCollector acc (by simp) (.refl _) (by simp)
      hcopies hatWork rfl).mp ⟨accs, hresults, hreduce⟩
    have hstop : (idCollector.mapReduce [.empty 3, .empty 2, .empty 3]).1 =
        .error (.fault (collectedTwice 3)) := rfl
    cases hstop.symm.trans hwhole

end Aggregator

end SeededRows
