/-
  SeededRows.Proofs.FieldOrder.Acceptance

  Which lists of described fields are accepted. A description builds when its parameters are those
  of its kind. A field can follow others when the source of its bucket is among them, its
  description builds, and its name is new and not reserved; these are checked in this order, and the
  first check that fails names the error. A list is accepted when every field can follow the ones
  before it, and otherwise the first field that cannot is the one reported.
-/
import Mathlib.Data.List.Induction
import SeededRows.Proofs.Engine.DrawFailures

namespace SeededRows

open Calendar (Date)

/-! ## Descriptions that build -/

theorem ofFault_isOk_iff {α : Type} {r : Except Fault α} :
    (∃ a, Stop.ofFault r = .ok a) ↔ ∃ a, r = .ok a := by
  constructor
  · rintro ⟨a, ha⟩
    exact ⟨a, ofFault_eq_ok ha⟩
  · rintro ⟨a, rfl⟩
    exact ⟨a, rfl⟩

theorem map_isOk_iff {ε α β : Type} {r : Except ε α} {f : α → β} :
    (∃ b, r.map f = .ok b) ↔ ∃ a, r = .ok a := by
  constructor
  · rintro ⟨b, hb⟩
    obtain ⟨a, ha, -⟩ := map_eq_ok hb
    exact ⟨a, ha⟩
  · rintro ⟨a, rfl⟩
    exact ⟨f a, rfl⟩

/-- A check that fails with an error, before the rest or after it. -/
theorem error_or_isOk_iff {ε α : Type} {c : Prop} [Decidable c] {e : ε} {r : Except ε α} :
    (∃ a, (if c then .error e else r) = .ok a) ↔ ¬ c ∧ ∃ a, r = .ok a := by
  by_cases h : c
  · rw [if_pos h]
    exact iff_of_false (by rintro ⟨a, ⟨⟩⟩) fun hnot => hnot.1 h
  · rw [if_neg h, and_iff_right h]

theorem isOk_or_error_iff {ε α : Type} {c : Prop} [Decidable c] {e : ε} {r : Except ε α} :
    (∃ a, (if c then r else .error e) = .ok a) ↔ c ∧ ∃ a, r = .ok a := by
  by_cases h : c
  · rw [if_pos h, and_iff_right h]
  · rw [if_neg h]
    exact iff_of_false (by rintro ⟨a, ⟨⟩⟩) fun hc => h hc.1

theorem Event.ofProbability_isOk_iff {p : Float} :
    (∃ event, ofProbability p = .ok event) ↔ 0.0 ≤ p ∧ p ≤ 1.0 := by
  rw [ofProbability, refuse, isOk_or_error_iff]
  simp

theorem FloatRange.ofEnds_isOk_iff {min max : Float} : (∃ range, ofEnds min max = .ok range) ↔
    min.isFinite = true ∧ max.isFinite = true ∧ ¬ max < min ∧ (max - min).isFinite = true := by
  simp only [ofEnds, refuse, error_or_isOk_iff]
  simp [and_assoc]

/-- A date is read when its text is one. -/
theorem readDate_eq_ok_iff {given : String} {d : Date} :
    readDate given = .ok d ↔ Date.ofText given = .ok d := by
  rw [readDate]
  cases Date.ofText given with
  | ok d' => simp
  | error problem => exact iff_of_false (by rintro ⟨⟩) (by rintro ⟨⟩)

namespace Choice

/-- The weights of some options, added up in order. -/
def totalOf : List WeightedLabel → Float
  | [] => 0.0
  | first :: rest => (rest.map (·.weight)).foldl (· + ·) first.weight

/-- The running sums stop at a weight that is not at least zero, and otherwise reach the total. -/
theorem accumulate_outcome (weights : List Float) (sums : Array Float) (sum : Float) :
    ((∀ w ∈ weights, 0.0 ≤ w) ∧
      ∃ sums', accumulate sums sum weights = some (sums', weights.foldl (· + ·) sum)) ∨
    (∃ w ∈ weights, ¬ 0.0 ≤ w) ∧ accumulate sums sum weights = none := by
  induction weights generalizing sums sum with
  | nil => exact .inl ⟨fun w hw => absurd hw List.not_mem_nil, sums, rfl⟩
  | cons w rest ih =>
    rw [accumulate]
    by_cases hw : 0.0 ≤ w
    · rw [if_pos hw]
      obtain ⟨hrest, hsums⟩ | ⟨⟨w', hmem, hbad⟩, hnone⟩ := ih (sums.push sum) (sum + w)
      · refine .inl ⟨fun w' hmem => ?_, hsums⟩
        rcases List.mem_cons.mp hmem with rfl | hmem
        · exact hw
        · exact hrest w' hmem
      · exact .inr ⟨⟨w', List.mem_cons_of_mem _ hmem, hbad⟩, hnone⟩
    · rw [if_neg hw]
      exact .inr ⟨⟨w, List.mem_cons_self, hw⟩, rfl⟩

theorem ofWeights_isOk_iff {options : List WeightedLabel} : (∃ c, ofWeights options = .ok c) ↔
    options ≠ [] ∧ (∀ option ∈ options, 0.0 ≤ option.weight) ∧
      (totalOf options == 0.0) = false ∧ (totalOf options).isFinite = true := by
  cases options with
  | nil => exact iff_of_false (by rintro ⟨c, ⟨⟩⟩) fun h => h.1 rfl
  | cons first rest =>
    simp only [ofWeights, List.map_cons, isOk_or_error_iff]
    obtain ⟨hweights, sums, hsums⟩ | ⟨⟨w, hmem, hbad⟩, hnone⟩ :=
      accumulate_outcome (rest.map (·.weight)) #[] first.weight
    · have htotal : (rest.map (·.weight)).foldl (· + ·) first.weight = totalOf (first :: rest) := rfl
      have hrest : ∀ option ∈ rest, 0.0 ≤ option.weight :=
        fun option hoption => hweights _ (List.mem_map_of_mem hoption)
      rw [hsums, htotal]
      dsimp only
      rw [error_or_isOk_iff, isOk_or_error_iff, List.forall_mem_cons, and_iff_left hrest]
      simp
    · rw [hnone]
      obtain ⟨option, hoption, rfl⟩ := List.mem_map.mp hmem
      exact iff_of_false (by rintro ⟨-, c, ⟨⟩⟩) fun h =>
        hbad (h.2.1 option (List.mem_cons_of_mem _ hoption))

end Choice

namespace Bucket

theorem increasing_iff_isChain {thresholds : List Int64} :
    increasing thresholds = true ↔ thresholds.IsChain fun a b => a.toInt < b.toInt := by
  fun_induction increasing thresholds with
  | case1 a b rest ih => rw [Bool.and_eq_true, decide_eq_true_iff, ih, List.isChain_cons_cons]
  | case2 thresholds hshort =>
    match thresholds with
    | [] => simp
    | [a] => simp
    | a :: b :: rest => exact absurd rfl (hshort a b rest)

/-- Comparing neighbours is enough for an increasing list. -/
theorem increasing_iff {thresholds : List Int64} :
    increasing thresholds = true ↔ thresholds.Pairwise fun a b => a.toInt < b.toInt := by
  have htrans : IsTrans Int64 fun a b => a.toInt < b.toInt := ⟨fun _ _ _ => Int.lt_trans⟩
  rw [increasing_iff_isChain, List.isChain_iff_pairwise]

theorem ofThresholds_isOk_iff {field : String} {thresholds : List Int64} {labels : List String} :
    (∃ b, ofThresholds field thresholds labels = .ok b) ↔
      labels.length = thresholds.length + 1 ∧ thresholds.Pairwise fun a b => a.toInt < b.toInt := by
  rw [ofThresholds, refuse, refuse, error_or_isOk_iff, isOk_or_error_iff, increasing_iff]
  simp

end Bucket

namespace DistributionSpec

/-- What each kind of description asks of its parameters. -/
def Acceptable : DistributionSpec → Prop
  | bool p => 0.0 ≤ p ∧ p ≤ 1.0
  | intRange min max => min.toInt ≤ max.toInt
  | floatRange min max =>
    min.isFinite = true ∧ max.isFinite = true ∧ ¬ max < min ∧ (max - min).isFinite = true
  | choice options => options ≠ [] ∧ (∀ option ∈ options, 0.0 ≤ option.weight) ∧
      (Choice.totalOf options == 0.0) = false ∧ (Choice.totalOf options).isFinite = true
  | uuid => True
  | dateRange min max =>
    ∃ first last, Date.ofText min = .ok first ∧ Date.ofText max = .ok last ∧ first.le last = true
  | bucket _ thresholds labels =>
    labels.length = thresholds.length + 1 ∧ thresholds.Pairwise fun a b => a.toInt < b.toInt

/-- The descriptions that build are those with acceptable parameters. -/
theorem build_isOk_iff (spec : DistributionSpec) : (∃ d, spec.build = .ok d) ↔ spec.Acceptable := by
  cases spec with
  | bool p => exact ofFault_isOk_iff.trans (map_isOk_iff.trans Event.ofProbability_isOk_iff)
  | intRange min max => exact ofFault_isOk_iff.trans (map_isOk_iff.trans IntRange.ofEnds_isOk_iff)
  | floatRange min max => exact ofFault_isOk_iff.trans (map_isOk_iff.trans FloatRange.ofEnds_isOk_iff)
  | choice options => exact map_isOk_iff.trans Choice.ofWeights_isOk_iff
  | uuid => exact iff_of_true ⟨_, rfl⟩ trivial
  | dateRange min max =>
    refine ofFault_isOk_iff.trans ⟨?_, ?_⟩
    · rintro ⟨d, h⟩
      obtain ⟨first, hfirst, h⟩ := bind_eq_ok h
      obtain ⟨last, hlast, h⟩ := bind_eq_ok h
      obtain ⟨range, hrange, -⟩ := bind_eq_ok h
      exact ⟨first, last, readDate_eq_ok_iff.mp hfirst, readDate_eq_ok_iff.mp hlast,
        DateRange.ofEnds_isOk_iff.mp ⟨range, hrange⟩⟩
    · rintro ⟨first, last, hfirst, hlast, hle⟩
      obtain ⟨range, hrange⟩ := DateRange.ofEnds_isOk_iff.mpr hle
      rw [readDate_eq_ok_iff.mpr hfirst, readDate_eq_ok_iff.mpr hlast]
      exact ⟨range.draw, by simp only [bind, Except.bind, hrange]; rfl⟩
  | bucket source thresholds labels =>
    exact ofFault_isOk_iff.trans (map_isOk_iff.trans Bucket.ofThresholds_isOk_iff)

end DistributionSpec

/-! ## Fields after other fields -/

namespace FieldSpec

/-- A bucket is over the row id or over a field before it. -/
def SourceFirst (earlier : List FieldSpec) (f : FieldSpec) : Prop :=
  ∀ source thresholds labels, f.distribution = .bucket source thresholds labels →
    source = idField ∨ source ∈ earlier.map (·.name)

/-- A field that can follow others. -/
structure Fits (earlier : List FieldSpec) (f : FieldSpec) : Prop where
  source : f.SourceFirst earlier
  builds : ∃ d, f.distribution.build = .ok d
  unreserved : f.name ≠ idField
  new : f.name ∉ earlier.map (·.name)

/-- Why a field cannot follow others. Each reason counts only where the ones before it do not
apply. -/
inductive Offends (earlier : List FieldSpec) (f : FieldSpec) : Stop → Prop
  | source {source : String} {thresholds : List Int64} {labels : List String} :
      f.distribution = .bucket source thresholds labels → source ≠ idField →
      source ∉ earlier.map (·.name) →
      Offends earlier f (.fault (.invalidArgument (.bucketSource f.name source)))
  | build {stop : Stop} : f.SourceFirst earlier → f.distribution.build = .error stop →
      Offends earlier f stop
  | reserved {d : Distribution} : f.SourceFirst earlier → f.distribution.build = .ok d →
      f.name = idField → Offends earlier f (.fault (.invalidArgument .reservedField))
  | duplicate {d : Distribution} : f.SourceFirst earlier → f.distribution.build = .ok d →
      f.name ≠ idField → f.name ∈ earlier.map (·.name) →
      Offends earlier f (.fault (.invalidArgument (.duplicateField f.name)))

theorem fits_or_offends (earlier : List FieldSpec) (f : FieldSpec) :
    f.Fits earlier ∨ ∃ stop, f.Offends earlier stop := by
  by_cases hsource : f.SourceFirst earlier
  · cases hbuild : f.distribution.build with
    | error stop => exact .inr ⟨stop, .build hsource hbuild⟩
    | ok d =>
      by_cases hid : f.name = idField
      · exact .inr ⟨_, .reserved hsource hbuild hid⟩
      · by_cases hmem : f.name ∈ earlier.map (·.name)
        · exact .inr ⟨_, .duplicate hsource hbuild hid hmem⟩
        · exact .inl ⟨hsource, ⟨d, hbuild⟩, hid, hmem⟩
  · simp only [SourceFirst, not_forall, not_or] at hsource
    obtain ⟨source, thresholds, labels, hbucket, hid, hmem⟩ := hsource
    exact .inr ⟨_, .source hbucket hid hmem⟩

end FieldSpec

namespace FieldOrder

variable {order : FieldOrder} {earlier fields before after : List FieldSpec} {f : FieldSpec}
  {stop : Stop}

theorem checkSource_of_sourceFirst (hnames : order.names = earlier.map (·.name))
    (h : f.SourceFirst earlier) : order.checkSource f = .ok () := by
  cases hspec : f.distribution with
  | bucket source thresholds labels =>
    have hsource := h source thresholds labels hspec
    rw [← hnames, ← contains_iff] at hsource
    rw [checkSource, hspec]
    exact if_pos hsource.symm
  | _ => rw [checkSource, hspec]

theorem push_of_new {name : String} {d : Distribution} (hid : name ≠ idField)
    (hnew : name ∉ order.names) : order.push name d = .ok ⟨order.fields ++ [(name, d)]⟩ := by
  rw [push, if_neg hid, if_neg (fun h => hnew (contains_iff.mp h))]

/-- What is left to check of a field whose source is there and whose description builds is its
name. -/
theorem pushSpec_of_builds (hnames : order.names = earlier.map (·.name))
    (hsource : f.SourceFirst earlier) {d : Distribution} (hbuild : f.distribution.build = .ok d) :
    order.pushSpec f = Stop.ofFault (order.push f.name d) := by
  rw [pushSpec, checkSource_of_sourceFirst hnames hsource, hbuild]
  rfl

/-- A field that can follow the described ones is taken. -/
theorem pushSpec_of_fits (hnames : order.names = earlier.map (·.name)) (h : f.Fits earlier) :
    ∃ order', order.pushSpec f = .ok order' := by
  obtain ⟨d, hbuild⟩ := h.builds
  refine ⟨⟨order.fields ++ [(f.name, d)]⟩, ?_⟩
  rw [pushSpec_of_builds hnames h.source hbuild, push_of_new h.unreserved (hnames ▸ h.new)]
  rfl

/-- A field that cannot follow the described ones is refused for its first reason. -/
theorem pushSpec_of_offends (hnames : order.names = earlier.map (·.name))
    (h : f.Offends earlier stop) : order.pushSpec f = .error stop := by
  cases h with
  | @source source thresholds labels hbucket hid hmem =>
    have hcheck : order.checkSource f = refuse (.bucketSource f.name source) := by
      rw [← hnames, ← contains_iff] at hmem
      rw [checkSource, hbucket]
      exact if_neg (not_or.mpr ⟨hmem, hid⟩)
    rw [pushSpec, hcheck]
    rfl
  | build hsource hbuild =>
    rw [pushSpec, checkSource_of_sourceFirst hnames hsource, hbuild]
    rfl
  | reserved hsource hbuild hid =>
    rw [pushSpec_of_builds hnames hsource hbuild, push, if_pos hid]
    rfl
  | duplicate hsource hbuild hid hmem =>
    rw [pushSpec_of_builds hnames hsource hbuild, push, if_neg hid,
      if_pos (contains_iff.mpr (hnames ▸ hmem))]
    rfl

/-! ## Lists of fields -/

/-- Well-formed lists of described fields: distinct names without the reserved one, descriptions
that build, and buckets over the row id or over strictly earlier fields. -/
structure WellFormed (fields : List FieldSpec) : Prop where
  nodup : (fields.map (·.name)).Nodup
  unreserved : ∀ f ∈ fields, f.name ≠ idField
  builds : ∀ f ∈ fields, ∃ d, f.distribution.build = .ok d
  sources : ∀ before f after, fields = before ++ f :: after → ∀ source thresholds labels,
    f.distribution = .bucket source thresholds labels →
    source = idField ∨ source ∈ before.map (·.name)

theorem wellFormed_nil : WellFormed [] :=
  ⟨List.nodup_nil, fun _ hf => absurd hf List.not_mem_nil, fun _ hf => absurd hf List.not_mem_nil,
    fun _ _ _ hsplit => by simp at hsplit⟩

/-- The last field of a well-formed list can follow the others. -/
theorem wellFormed_concat : WellFormed (fields ++ [f]) ↔ WellFormed fields ∧ f.Fits fields := by
  constructor
  · rintro ⟨hnodup, hunreserved, hbuilds, hsources⟩
    have hf : f ∈ fields ++ [f] := List.mem_append_right _ List.mem_cons_self
    rw [List.map_append, List.map_cons, List.map_nil, ← List.concat_eq_append,
      List.nodup_concat] at hnodup
    refine ⟨⟨hnodup.2, fun g hg => hunreserved g (List.mem_append_left _ hg),
      fun g hg => hbuilds g (List.mem_append_left _ hg), ?_⟩,
      ⟨hsources fields f [] rfl, hbuilds f hf, hunreserved f hf, hnodup.1⟩⟩
    intro before g after hsplit
    refine hsources before g (after ++ [f]) ?_
    rw [hsplit, List.append_assoc, List.cons_append]
  · rintro ⟨h, hfits⟩
    refine ⟨?_, ?_, ?_, ?_⟩
    · rw [List.map_append, List.map_cons, List.map_nil, ← List.concat_eq_append, List.nodup_concat]
      exact ⟨hfits.new, h.nodup⟩
    · intro g hg
      rcases List.mem_append.mp hg with hg | hg
      · exact h.unreserved g hg
      · rw [List.mem_singleton.mp hg]
        exact hfits.unreserved
    · intro g hg
      rcases List.mem_append.mp hg with hg | hg
      · exact h.builds g hg
      · rw [List.mem_singleton.mp hg]
        exact hfits.builds
    · intro before g after hsplit
      -- either the last field is the bucket itself, or it stands behind it
      obtain ⟨rfl, rfl⟩ | ⟨more, hbefore⟩ := split_concat hsplit
      · exact hfits.source
      · exact h.sources before g more hbefore

theorem ofSpecs_append (more : List FieldSpec) :
    ofSpecs (fields ++ more) = ofSpecs fields >>= fun order => more.foldlM pushSpec order := by
  rw [ofSpecs, List.foldlM_append]
  rfl

/-- A well-formed list is accepted. -/
theorem WellFormed.ofSpecs (h : WellFormed fields) : ∃ order, ofSpecs fields = .ok order := by
  induction fields using List.reverseRecOn with
  | nil => exact ⟨empty, rfl⟩
  | append_singleton fields f ih =>
    obtain ⟨hfields, hfits⟩ := wellFormed_concat.mp h
    obtain ⟨order, horder⟩ := ih hfields
    obtain ⟨order', hpush⟩ := pushSpec_of_fits (describes_of_ofSpecs horder).names hfits
    refine ⟨order', ?_⟩
    rw [ofSpecs_append, horder]
    show [f].foldlM pushSpec order = .ok order'
    rw [List.foldlM_cons, hpush]
    rfl

/-- The first field that cannot follow the ones before it settles the error. -/
theorem ofSpecs_of_offends (hbefore : WellFormed before) (hf : f.Offends before stop) :
    ofSpecs (before ++ f :: after) = .error stop := by
  obtain ⟨order, horder⟩ := hbefore.ofSpecs
  rw [ofSpecs_append, horder]
  show (f :: after).foldlM pushSpec order = .error stop
  rw [List.foldlM_cons, pushSpec_of_offends (describes_of_ofSpecs horder).names hf]
  rfl

/-- A list that is not well-formed has a first field that cannot follow the ones before it. -/
theorem wellFormed_or_offends (fields : List FieldSpec) :
    WellFormed fields ∨ ∃ before f after stop, fields = before ++ f :: after ∧
      WellFormed before ∧ f.Offends before stop := by
  induction fields using List.reverseRecOn with
  | nil => exact .inl wellFormed_nil
  | append_singleton fields f ih =>
    obtain hfields | ⟨before, g, after, stop, rfl, hbefore, hg⟩ := ih
    · obtain hfits | ⟨stop, hf⟩ := FieldSpec.fits_or_offends fields f
      · exact .inl (wellFormed_concat.mpr ⟨hfields, hfits⟩)
      · exact .inr ⟨fields, f, [], stop, rfl, hfields, hf⟩
    · exact .inr ⟨before, g, after ++ [f], stop, by simp, hbefore, hg⟩

theorem ofSpecs_isOk_iff : (∃ order, ofSpecs fields = .ok order) ↔ WellFormed fields := by
  refine ⟨?_, fun h => h.ofSpecs⟩
  rintro ⟨order, horder⟩
  obtain h | ⟨before, f, after, stop, rfl, hbefore, hf⟩ := wellFormed_or_offends fields
  · exact h
  · rw [ofSpecs_of_offends hbefore hf] at horder
    cases horder

theorem ofSpecs_eq_error_iff : ofSpecs fields = .error stop ↔ ∃ before f after,
    fields = before ++ f :: after ∧ WellFormed before ∧ f.Offends before stop := by
  constructor
  · intro hstop
    obtain h | ⟨before, f, after, stop', rfl, hbefore, hf⟩ := wellFormed_or_offends fields
    · obtain ⟨order, horder⟩ := h.ofSpecs
      rw [horder] at hstop
      cases hstop
    · rw [ofSpecs_of_offends hbefore hf] at hstop
      cases hstop
      exact ⟨before, f, after, rfl, hbefore, hf⟩
  · rintro ⟨before, f, after, rfl, hbefore, hf⟩
    exact ofSpecs_of_offends hbefore hf

/-- The distributions of an accepted order are those that its fields describe. -/
theorem Describes.get?_eq_some_iff (h : order.Describes fields) {name : String} {d : Distribution} :
    order.get? name = some d ↔ ∃ f ∈ fields, f.name = name ∧ f.distribution.build = .ok d := by
  constructor
  · intro hget
    have hmem : name ∈ order.names := contains_iff.mp (by rw [contains, hget]; rfl)
    rw [h.names] at hmem
    obtain ⟨f, hf, rfl⟩ := List.mem_map.mp hmem
    obtain ⟨d', hget', hbuild⟩ := h.builds f hf
    obtain rfl : d' = d := Option.some.inj (hget'.symm.trans hget)
    exact ⟨f, hf, rfl, hbuild⟩
  · rintro ⟨f, hf, rfl, hbuild⟩
    obtain ⟨d', hget, hbuild'⟩ := h.builds f hf
    obtain rfl : d' = d := Except.ok.inj (hbuild'.symm.trans hbuild)
    exact hget

/-- The lists of fields that are accepted are the well-formed ones. The order of an accepted list
holds its names as they stand and no others, each with the distribution that it describes. A refused
list fails with the error of the first field that cannot follow the ones before it: the error of a
bucket over no earlier field comes first, then that of its description, then those of its name. -/
theorem ofSpecs_accepts_wellFormed (fields : List FieldSpec) :
    ((∃ order, ofSpecs fields = .ok order) ↔ WellFormed fields) ∧
    (∀ order, ofSpecs fields = .ok order → order.names = fields.map (·.name) ∧
      (∀ name, order.contains name = true ↔ name ∈ fields.map (·.name)) ∧
      ∀ name d, order.get? name = some d ↔
        ∃ f ∈ fields, f.name = name ∧ f.distribution.build = .ok d) ∧
    (∀ stop, ofSpecs fields = .error stop ↔ ∃ before f after,
      fields = before ++ f :: after ∧ WellFormed before ∧ f.Offends before stop) ∧
    ∀ spec : DistributionSpec, (∃ d, spec.build = .ok d) ↔ spec.Acceptable := by
  refine ⟨ofSpecs_isOk_iff, ?_, fun _ => ofSpecs_eq_error_iff, DistributionSpec.build_isOk_iff⟩
  intro order horder
  have h := describes_of_ofSpecs horder
  refine ⟨h.names, fun name => ?_, fun _ _ => h.get?_eq_some_iff⟩
  rw [contains_iff, h.names]

/-- An integer and a bucket over it. -/
def banded : List FieldSpec :=
  [⟨"age", .intRange 0 9⟩, ⟨"band", .bucket "age" [5] ["low", "high"]⟩]

/-- A bucket is accepted behind its source and refused in front of it, and its source comes before
its labels and its name. -/
theorem ofSpecs_accepts_wellFormed_banded : WellFormed banded ∧
    (∃ order, ofSpecs banded = .ok order ∧ order.names = ["age", "band"] ∧
      order.contains "band" = true ∧ order.get? "rank" = none) ∧
    ofSpecs banded.reverse = .error (.fault (.invalidArgument (.bucketSource "band" "age"))) ∧
    ofSpecs [⟨"id", .bucket "id" [] []⟩, ⟨"age", .uuid⟩] =
      .error (.fault (.invalidArgument (.bucketLabels "id" 0 0))) := by
  obtain ⟨haccepted, horders, -, -⟩ := ofSpecs_accepts_wellFormed banded
  obtain ⟨-, -, hreversed, -⟩ := ofSpecs_accepts_wellFormed banded.reverse
  obtain ⟨-, -, hlabels, -⟩ := ofSpecs_accepts_wellFormed [⟨"id", .bucket "id" [] []⟩, ⟨"age", .uuid⟩]
  have hok : ∃ order, ofSpecs banded = .ok order := ⟨_, rfl⟩
  obtain ⟨order, horder⟩ := hok
  obtain ⟨hnames, hcontains, -⟩ := horders order horder
  refine ⟨haccepted.mp ⟨order, horder⟩, ⟨order, horder, hnames, ?_, ?_⟩, ?_, ?_⟩
  · exact (hcontains "band").mpr (by decide)
  · rw [← Option.not_isSome_iff_eq_none]
    exact fun h => absurd ((hcontains "rank").mp h) (by decide)
  · refine (hreversed _).mpr ⟨[], _, _, rfl, wellFormed_nil, .source rfl (by decide) (by decide)⟩
  · refine (hlabels _).mpr ⟨[], _, _, rfl, wellFormed_nil, .build ?_ rfl⟩
    rintro source thresholds labels ⟨⟩
    exact .inl rfl

end FieldOrder

end SeededRows
