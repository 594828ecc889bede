/-
  SeededRows.Proofs.RunFile.Descriptions

  Each description is found again in its document. A description of a kind is the entry of its
  kind followed by its parts; no part bears the name of the kind or that of a field, so each
  key is found once. A double that is not finite has no written form, so the doubles of a
  distribution are asked to be finite.
-/
import Mathlib.Tactic.SplitIfs
import SeededRows.RunFile.Config

namespace SeededRows

/-- The doubles of a description. -/
def DistributionSpec.floats : DistributionSpec → List Float
  | .bool p => [p]
  | .floatRange min max => [min, max]
  | .choice options => options.map (·.weight)
  | _ => []

namespace RunFile

/-! ## Simple parts -/

theorem float?_ofFloat {x : Float} (h : x.isFinite = true) : float? (.ofFloat x) = some x := by
  rw [Json.ofFloat, if_pos h]
  rfl

theorem int?_toInt (n : Int64) : int? (.int n.toInt) = some n := by
  rw [int?, Word.signed?, if_pos ⟨n.minValue_le_toInt, n.toInt_le⟩, Int64.ofInt_toInt]

theorem uint?_toNat (n : UInt64) : uint? (.int n.toNat) = some n := by
  have hsize : (n.toNat : Int) < UInt64.size := Int.ofNat_lt.mpr n.toNat_lt_size
  rw [uint?, Word.unsigned?, if_pos ⟨Int.natCast_nonneg _, hsize⟩, Int.toNat_natCast]
  exact congrArg some n.ofNat_toNat

/-- A list is read when each of its items is. -/
theorem list?_map {α : Type} {encode : α → Json} {item? : Json → Option α} {items : List α}
    (h : ∀ a ∈ items, item? (encode a) = some a) :
    list? item? (.list (items.map encode)) = some items := by
  rw [list?]
  induction items with
  | nil => rfl
  | cons a items ih =>
    rw [List.map_cons, List.mapM_cons, h a List.mem_cons_self,
      ih fun b hb => h b (List.mem_cons_of_mem a hb)]
    rfl

theorem list?_texts (items : List String) : list? text? (.texts items) = some items :=
  list?_map fun _ _ => rfl

theorem nullable?_encodeNullable (s : Option String) :
    nullable? text? (encodeNullable s) = some s := by
  cases s <;> rfl

/-! ## Readable documents -/

theorem readableItems_map {α : Type} {encode : α → Json} (h : ∀ a, (encode a).readable = true)
    (items : List α) : Json.readableItems (items.map encode) = true := by
  induction items with
  | nil => rfl
  | cons a items ih =>
    rw [List.map_cons, Json.readableItems, h a, ih]
    rfl

theorem readable_ofFloat (x : Float) : (Json.ofFloat x).readable = true := by
  rw [Json.ofFloat]
  split_ifs <;> rfl

theorem readable_texts (items : List String) : (Json.texts items).readable = true :=
  readableItems_map (fun _ => rfl) items

theorem readable_encodeOption (o : WeightedLabel) : (encodeOption o).readable = true := by
  simp [encodeOption, Json.readable, Json.readableEntries, readable_ofFloat]

theorem readableEntries_distribution (d : DistributionSpec) :
    Json.readableEntries (distributionEntries d) = true := by
  have hthresholds := fun thresholds : List Int64 =>
    readableItems_map (fun t : Int64 => (rfl : (Json.int t.toInt).readable = true)) thresholds
  cases d <;>
    simp [distributionEntries, distributionParts, Json.readableEntries, Json.readable,
      readable_ofFloat, readableItems_map readable_encodeOption, hthresholds, readable_texts]

theorem readable_encodeDistribution (d : DistributionSpec) :
    (encodeDistribution d).readable = true := by
  rw [encodeDistribution, Json.readable]
  exact readableEntries_distribution d

theorem readable_encodeField (f : FieldSpec) : (encodeField f).readable = true := by
  rw [encodeField, Json.readable, Json.readableEntries, readableEntries_distribution]
  rfl

theorem readable_encodeAggregator (a : AggregatorSpec) : (encodeAggregator a).readable = true := by
  have hstem : ∀ stem, (encodeNullable stem).readable = true := fun stem => by
    cases stem <;> rfl
  cases a <;>
    simp [encodeAggregator, Json.readable, Json.readableEntries, readable_texts, hstem]

/-! ## Parts of records -/

theorem valuesOf_eq_nil {entries : List (String × Json)} {name : String}
    (h : ∀ entry ∈ entries, entry.1 ≠ name) : Parts.valuesOf entries name = [] := by
  rw [Parts.valuesOf, List.filter_eq_nil_iff.mpr, List.map_nil]
  intro entry hentry
  simpa using h entry hentry

theorem valuesOf_cons_self {entries : List (String × Json)} {name : String} (v : Json)
    (h : ∀ entry ∈ entries, entry.1 ≠ name) :
    Parts.valuesOf ((name, v) :: entries) name = [v] := by
  have hrest := valuesOf_eq_nil h
  simp only [Parts.valuesOf, List.map_eq_nil_iff] at hrest
  simp [Parts.valuesOf, hrest]

theorem valuesOf_cons_of_ne {entries : List (String × Json)} {key name : String} (v : Json)
    (h : key ≠ name) : Parts.valuesOf ((key, v) :: entries) name = Parts.valuesOf entries name := by
  simp [Parts.valuesOf, h]

/-! ## Distributions -/

theorem option?_encodeOption {o : WeightedLabel} (h : o.weight.isFinite = true) :
    option? (encodeOption o) = some o := by
  simp [option?, encodeOption, Parts.of?, Parts.required?, Parts.default?, Parts.find?,
    Parts.valuesOf, Parts.fits, text?, float?_ofFloat h]

/-- No part of a distribution is called like a kind or a field. -/
theorem distributionParts_keys (d : DistributionSpec) :
    ∀ entry ∈ distributionParts d, entry.1 ≠ kindKey ∧ entry.1 ≠ "name" := by
  cases d <;> simp [distributionParts, kindKey]

/-- The parts of a distribution make up the distribution. -/
theorem distributionOf?_parts {d : DistributionSpec} (h : ∀ x ∈ d.floats, x.isFinite = true) :
    distributionOf? (distributionKind d) (.named (distributionParts d)) = some d := by
  cases d with
  | bool p =>
    have hp := float?_ofFloat (h p (by simp [DistributionSpec.floats]))
    simp [distributionKind, distributionParts, distributionOf?, Parts.default?, Parts.find?,
      Parts.valuesOf, Parts.fits, hp]
  | intRange min max =>
    simp [distributionKind, distributionParts, distributionOf?, Parts.required?, Parts.find?,
      Parts.valuesOf, Parts.fits, int?_toInt]
  | floatRange min max =>
    have hmin := float?_ofFloat (h min (by simp [DistributionSpec.floats]))
    have hmax := float?_ofFloat (h max (by simp [DistributionSpec.floats]))
    simp [distributionKind, distributionParts, distributionOf?, Parts.required?, Parts.find?,
      Parts.valuesOf, Parts.fits, hmin, hmax]
  | choice options =>
    have hoptions : list? option? (.list (options.map encodeOption)) = some options :=
      list?_map fun o ho => option?_encodeOption
        (h o.weight (List.mem_map_of_mem ho))
    simp [distributionKind, distributionParts, distributionOf?, Parts.required?, Parts.find?,
      Parts.valuesOf, Parts.fits, hoptions]
  | uuid => rfl
  | dateRange min max =>
    simp [distributionKind, distributionParts, distributionOf?, Parts.required?, Parts.find?,
      Parts.valuesOf, Parts.fits, text?]
  | bucket source thresholds labels =>
    have hthresholds : list? int? (.list (thresholds.map fun t => .int t.toInt)) =
        some thresholds := list?_map fun t _ => int?_toInt t
    simp [distributionKind, distributionParts, distributionOf?, Parts.required?, Parts.find?,
      Parts.valuesOf, Parts.fits, text?, hthresholds, list?_texts]

theorem kindAndParts?_record {kind : String} {entries : List (String × Json)}
    (h : ∀ entry ∈ entries, entry.1 ≠ kindKey) :
    kindAndParts? (.record ((kindKey, .text kind) :: entries)) = some (kind, .named entries) := by
  have hkeep : entries.filter (fun entry => entry.1 != kindKey) = entries :=
    List.filter_eq_self.mpr fun entry hentry => bne_iff_ne.mpr (h entry hentry)
  simp [kindAndParts?, valuesOf_cons_self _ h, hkeep]

theorem distribution?_encodeDistribution {d : DistributionSpec}
    (h : ∀ x ∈ d.floats, x.isFinite = true) : distribution? (encodeDistribution d) = some d := by
  have hkeys : ∀ entry ∈ distributionParts d, entry.1 ≠ kindKey := fun entry hentry =>
    (distributionParts_keys d entry hentry).1
  rw [distribution?, if_pos (readable_encodeDistribution d), encodeDistribution,
    distributionEntries, kindAndParts?_record hkeys]
  exact distributionOf?_parts h

/-! ## Fields -/

theorem required?_of_values {α : Type} {entries : List (String × Json)} {name : String} {v : Json}
    (place : Nat) (part? : Json → Option α) (h : Parts.valuesOf entries name = [v]) :
    (Parts.named entries).required? place name part? = part? v := by
  rw [Parts.required?, Parts.find?, h]
  rfl

theorem default?_of_values {α : Type} {entries : List (String × Json)} {name : String} {v : Json}
    (place : Nat) (default : α) (part? : Json → Option α)
    (h : Parts.valuesOf entries name = [v]) :
    (Parts.named entries).default? place name default part? = part? v := by
  rw [Parts.default?, Parts.find?, h]
  rfl

theorem field?_encodeField {f : FieldSpec} (h : ∀ x ∈ f.distribution.floats, x.isFinite = true) :
    field? .json (encodeField f) = some f := by
  have hkind : ∀ entry ∈ distributionParts f.distribution, entry.1 ≠ kindKey :=
    fun entry hentry => (distributionParts_keys _ entry hentry).1
  have hname : ∀ entry ∈ distributionEntries f.distribution, entry.1 ≠ "name" := by
    intro entry hentry
    rcases List.mem_cons.mp hentry with rfl | hentry
    · exact (by decide : kindKey ≠ "name")
    · exact (distributionParts_keys _ entry hentry).2
  have hkinds : Parts.valuesOf (("name", .text f.name) :: distributionEntries f.distribution)
      kindKey = [.text (distributionKind f.distribution)] := by
    rw [valuesOf_cons_of_ne _ (by decide), distributionEntries, valuesOf_cons_self _ hkind]
  have hrest : (("name", .text f.name) :: distributionEntries f.distribution).filter
      (fun entry => entry.1 != kindKey && entry.1 != "name") = distributionParts f.distribution := by
    have hkeep : (distributionParts f.distribution).filter
        (fun entry => entry.1 != kindKey && entry.1 != "name") =
          distributionParts f.distribution :=
      List.filter_eq_self.mpr fun entry hentry => by
        simpa using distributionParts_keys f.distribution entry hentry
    simpa [distributionEntries] using hkeep
  have hreadable := readable_encodeField f
  -- The name, then the kind, then what is left for the distribution.
  rw [encodeField] at hreadable ⊢
  rw [field?, if_pos hreadable]
  dsimp only
  rw [required?_of_values 0 text? (valuesOf_cons_self _ hname),
    required?_of_values 0 (fieldKind? .json) hkinds, hrest]
  change (distributionOf? _ _).bind _ = _
  rw [distributionOf?_parts h]
  rfl

/-! ## Aggregators -/

theorem aggregator?_encodeAggregator (a : AggregatorSpec) :
    aggregator? (encodeAggregator a) = some a := by
  rw [aggregator?, if_pos (readable_encodeAggregator a)]
  cases a <;>
    simp [encodeAggregator, kindAndParts?, kindKey, stemKey, aggregatorOf?, Parts.required?,
      Parts.default?, Parts.find?, Parts.valuesOf, Parts.fits, text?, list?_texts,
      nullable?_encodeNullable]

/-! ## Settings and run files -/

theorem settings?_encodeSettings (s : Settings) :
    settings? .json (encodeSettings s) = some s := by
  have hseed : nullable? int? ((s.randomSeed.map fun seed => Json.int seed.toInt).getD .null) =
      some s.randomSeed := by
    cases s.randomSeed with
    | none => rfl
    | some seed =>
      rw [Option.map_some, Option.getD_some, nullable?, int?_toInt]
      · rfl
      · nofun
  rw [settings?, encodeSettings, Parts.of?]
  simp only [Option.bind_eq_bind, Option.bind_some]
  -- The six keys differ, so each is found once, and `rfl` sees its value.
  rw [default?_of_values 0 _ _ rfl, default?_of_values 1 _ _ rfl, default?_of_values 2 _ _ rfl,
    default?_of_values 3 _ _ rfl, default?_of_values 4 _ _ rfl, default?_of_values 5 _ _ rfl, hseed,
    uint?_toNat, uint?_toNat, uint?_toNat, uint?_toNat]
  rfl

theorem config?_encodeConfig {c : RunConfig}
    (h : ∀ f ∈ c.fields, ∀ x ∈ f.distribution.floats, x.isFinite = true) :
    config? .json (encodeConfig c) = some c := by
  have hfields : list? (field? .json) (.list (c.fields.map encodeField)) = some c.fields :=
    list?_map fun f hf => field?_encodeField (h f hf)
  have haggregators : list? aggregator? (.list (c.aggregators.map encodeAggregator)) =
      some c.aggregators := list?_map fun a _ => aggregator?_encodeAggregator a
  simp [config?, encodeConfig, Parts.of?, Parts.required?, Parts.default?, Parts.find?,
    Parts.valuesOf, Parts.fits, Parts.knows, settings?_encodeSettings, hfields, haggregators]

end RunFile

end SeededRows
