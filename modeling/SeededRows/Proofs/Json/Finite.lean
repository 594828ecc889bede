/-
  SeededRows.Proofs.Json.Finite

  Documents that are read hold finite doubles only. A word that is a number stands for an
  integer or for a finite double, and a container is put together from values that were read
  before, so the property passes from token to token.
-/
import SeededRows.Json.Reading
import SeededRows.Proofs.Decimal.Finite

namespace SeededRows.Json

/-- A document without infinities and NaNs. -/
inductive IsFinite : Json → Prop
  | null : IsFinite .null
  | bool (b : Bool) : IsFinite (.bool b)
  | int (n : Int) : IsFinite (.int n)
  | float {x : Float} (h : x.isFinite = true) : IsFinite (.float x)
  | text (s : String) : IsFinite (.text s)
  | list {items : List Json} (h : ∀ v ∈ items, IsFinite v) : IsFinite (.list items)
  | record {entries : List (String × Json)} (h : ∀ entry ∈ entries, IsFinite entry.2) :
    IsFinite (.record entries)
  | unreadable : IsFinite .unreadable

/-! ## Words and texts -/

theorem IsFinite.integral (negative : Bool) (n : Nat) : IsFinite (integral negative n) := by
  rw [Json.integral]
  split_ifs
  · exact .float (Decimal.isFinite_neg (Decimal.isFinite_toFloat _))
  · exact .int _
  · exact .int _

theorem IsFinite.numberValue (negative : Bool) (whole fraction : List Char)
    (power : Option Int) : IsFinite (numberValue negative whole fraction power) := by
  rw [Json.numberValue]
  dsimp only
  split_ifs
  · exact .integral _ _
  · split
    · rename_i x hx
      exact .float (Decimal.isFinite_scaled? hx)
    · exact .unreadable

theorem IsFinite.of_number {letters : List Char} {v : Json} (h : number? letters = some v) :
    IsFinite v := by
  unfold number? at h
  dsimp only at h
  split_ifs at h
  all_goals
    split at h
    · cases h
    · cases h
      exact .numberValue _ _ _ _

/-- The value of a word is finite. -/
theorem IsFinite.of_word {letters : List Char} {v : Json} (h : wordValue? letters = some v) :
    IsFinite v := by
  rw [wordValue?] at h
  split_ifs at h
  · cases h
    exact .null
  · cases h
    exact .bool true
  · cases h
    exact .bool false
  · exact .of_number h

theorem IsFinite.of_text (s : Option String) : IsFinite ((s.map Json.text).getD .unreadable) := by
  cases s with
  | none => exact .unreadable
  | some s => exact .text s

/-! ## Containers -/

theorem IsFinite.atDepth {depth : Nat} {v : Json} (h : IsFinite v) : IsFinite (atDepth depth v) := by
  rw [Json.atDepth]
  split_ifs
  · exact h
  · exact .unreadable

/-- What a list is mapped to comes from the items of the list. -/
theorem exists_of_mapM {α β : Type} {f : α → Option β} {as : List α} {bs : List β}
    (h : as.mapM f = some bs) : ∀ b ∈ bs, ∃ a ∈ as, f a = some b := by
  induction as generalizing bs with
  | nil =>
    cases h
    exact fun _ hb => absurd hb List.not_mem_nil
  | cons a as ih =>
    rw [List.mapM_cons] at h
    obtain ⟨b, hb, h⟩ := Option.bind_eq_some_iff.mp h
    obtain ⟨rest, hrest, h⟩ := Option.bind_eq_some_iff.mp h
    cases h
    intro d hd
    rcases List.mem_cons.mp hd with rfl | hd
    · exact ⟨a, List.mem_cons_self, hb⟩
    · obtain ⟨a', ha', hd⟩ := ih hrest d hd
      exact ⟨a', List.mem_cons_of_mem a ha', hd⟩

theorem IsFinite.recordOf {entries : List (Option String × Json)}
    (h : ∀ v ∈ entries.map (·.2), IsFinite v) : IsFinite (recordOf entries) := by
  rw [Json.recordOf]
  split
  · rename_i named hnamed
    refine .record fun entry hentry => ?_
    obtain ⟨⟨key, v⟩, hv, hkey⟩ := exists_of_mapM hnamed entry hentry
    obtain ⟨key, -, rfl⟩ := Option.map_eq_some_iff.mp hkey
    exact h v (List.mem_map_of_mem (List.mem_reverse.mp hv))
  · exact .unreadable

/-- The values that a frame holds. -/
def Frame.values : Frame → List Json
  | .list items => items
  | .record entries _ => entries.map (·.2)

/-- The values that were read before a place and are not in a frame. -/
def Place.values : Place → List Json
  | .item _ => []
  | .key entries _ => entries.map (·.2)
  | .colon entries _ => entries.map (·.2)
  | .after v => [v]

/-- What is read from finite values on is finite. -/
theorem IsFinite.of_read {frames : List Frame} {place : Place} {ts : List Token} {v : Json}
    (hframes : ∀ u ∈ frames.flatMap Frame.values, IsFinite u)
    (hplace : ∀ u ∈ place.values, IsFinite u) (h : read frames place ts = some v) :
    IsFinite v := by
  -- A step opens a container, reads a value, adds the last value to the open container, or closes
  -- that one; all others fail.
  fun_induction read frames place ts with
  | case1 u =>
    cases h
    exact hplace v List.mem_cons_self
  | case3 frames rest canEnd ih => exact ih hframes (by simp [Place.values]) h
  | case4 frames rest canEnd ih => exact ih hframes (by simp [Place.values]) h
  | case5 frames rest canEnd letters ih =>
    obtain ⟨u, hu, h⟩ := Option.bind_eq_some_iff.mp h
    exact ih u hframes (by simpa [Place.values] using IsFinite.of_word hu) h
  | case6 frames rest canEnd body ih =>
    obtain ⟨s, -, h⟩ := Option.bind_eq_some_iff.mp h
    exact ih s hframes (by simpa [Place.values] using IsFinite.of_text s) h
  | case7 rest outer ih =>
    have hempty : IsFinite (.list []) := .list (by simp)
    exact ih hframes (by simpa [Place.values] using hempty.atDepth) h
  | case10 frames rest entries canEnd body ih =>
    obtain ⟨key, -, h⟩ := Option.bind_eq_some_iff.mp h
    exact ih key hframes hplace h
  | case11 frames rest entries ih =>
    exact ih hframes (by simpa [Place.values] using (IsFinite.recordOf hplace).atDepth) h
  | case13 frames rest entries key ih =>
    refine ih ?_ (by simp [Place.values]) h
    intro u hu
    rcases List.mem_append.mp hu with hu | hu
    · exact hplace u hu
    · exact hframes u hu
  | case14 rest w items outer ih =>
    refine ih ?_ (by simp [Place.values]) h
    intro u hu
    rcases List.mem_cons.mp hu with rfl | hu
    · exact hplace u List.mem_cons_self
    · exact hframes u hu
  | case15 rest w entries key outer ih =>
    refine ih (fun u hu => hframes u (List.mem_append_right _ hu)) ?_ h
    intro u hu
    rcases List.mem_cons.mp hu with rfl | hu
    · exact hplace u List.mem_cons_self
    · exact hframes u (List.mem_append_left _ hu)
  | case17 rest w items outer ih =>
    have hitems : IsFinite (.list (w :: items).reverse) := by
      refine .list fun u hu => ?_
      rcases List.mem_cons.mp (List.mem_reverse.mp hu) with rfl | hu
      · exact hplace u List.mem_cons_self
      · exact hframes u (List.mem_append_left _ hu)
    refine ih (fun u hu => hframes u (List.mem_append_right _ hu)) ?_ h
    simpa [Place.values] using hitems.atDepth
  | case19 rest w entries key outer ih =>
    have hentries : IsFinite (Json.recordOf ((key, w) :: entries)) := by
      refine .recordOf fun u hu => ?_
      rcases List.mem_cons.mp hu with rfl | hu
      · exact hplace u List.mem_cons_self
      · exact hframes u (List.mem_append_left _ hu)
    refine ih (fun u hu => hframes u (List.mem_append_right _ hu)) ?_ h
    simpa [Place.values] using hentries.atDepth
  | case2 | case8 | case9 | case12 | case16 | case18 | case20 | case21 => cases h

/-- What a text holds is finite. -/
theorem IsFinite.of_ofText {s : String} {v : Json} (h : ofText s = some v) : IsFinite v := by
  obtain ⟨ts, -, h⟩ := Option.bind_eq_some_iff.mp h
  exact .of_read (by simp) (by simp [Place.values]) h

end SeededRows.Json
