/-
  SeededRows.Proofs.RunFile.RoundTrip

  The data of run files survive being written and read. Every kind of description is written
  as a document that the notation can carry, and is found again in it; what an accepted text
  describes holds finite doubles, so it can be written too, whatever defaults, unknown keys or
  orders of keys the text made use of.
-/
import SeededRows.Proofs.Json.Documents
import SeededRows.Proofs.Json.Finite
import SeededRows.Proofs.RunFile.Descriptions

namespace SeededRows.RunFile

open Json (Faithful IsFinite IsWide ReadsBack)

/-! ## Documents of descriptions -/

theorem isWide_toInt (n : Int64) : IsWide n.toInt := by
  have hmax : Int64.maxValue.toInt = 2 ^ 63 - 1 := rfl
  have hsize : (UInt64.size : Int) = 2 ^ 64 := rfl
  have hle := n.toInt_le
  exact ⟨n.minValue_le_toInt, by omega⟩

theorem isWide_toNat (n : UInt64) : IsWide n.toNat := by
  have hmin : Int64.minValue.toInt = -2 ^ 63 := rfl
  exact ⟨by omega, Int.ofNat_lt.mpr n.toNat_lt_size⟩

/-- The written double of a description can be carried. -/
theorem faithful_ofFloat (depth : Nat) {x : Float} (h : ReadsBack x) :
    Faithful depth (.ofFloat x) := by
  rw [Json.ofFloat]
  split_ifs
  · exact .float depth h
  · exact .null depth

theorem faithful_map {α : Type} {encode : α → Json} {items : List α} {depth : Nat}
    (hdepth : depth < Json.depthLimit) (h : ∀ a ∈ items, Faithful (depth + 1) (encode a)) :
    Faithful depth (.list (items.map encode)) := by
  refine .list hdepth fun v hv => ?_
  obtain ⟨a, ha, rfl⟩ := List.mem_map.mp hv
  exact h a ha

theorem faithful_texts {depth : Nat} (hdepth : depth < Json.depthLimit) (items : List String) :
    Faithful depth (.texts items) :=
  faithful_map hdepth fun s _ => .text _ s

/-- Entries can be carried when the first can and the others can. -/
theorem faithful_cons {depth : Nat} {key : String} {v : Json} {entries : List (String × Json)}
    (hv : Faithful depth v) (hrest : ∀ entry ∈ entries, Faithful depth entry.2) :
    ∀ entry ∈ (key, v) :: entries, Faithful depth entry.2 :=
  List.forall_mem_cons.mpr ⟨hv, hrest⟩

theorem faithful_nil (depth : Nat) : ∀ entry ∈ ([] : List (String × Json)), Faithful depth entry.2 :=
  List.forall_mem_nil _

theorem faithful_encodeOption {depth : Nat} (hdepth : depth < Json.depthLimit) {o : WeightedLabel}
    (h : ReadsBack o.weight) : Faithful depth (encodeOption o) :=
  .record hdepth (faithful_cons (.text _ _) (faithful_cons (faithful_ofFloat _ h) (faithful_nil _)))

/-- The entries of a distribution can be carried inside one more container than they hold. -/
theorem faithful_distributionEntries {depth : Nat} (hdepth : depth + 1 < Json.depthLimit)
    {d : DistributionSpec} (h : ∀ x ∈ d.floats, ReadsBack x) :
    ∀ entry ∈ distributionEntries d, Faithful depth entry.2 := by
  have hlist : depth < Json.depthLimit := Nat.lt_of_succ_lt hdepth
  refine faithful_cons (.text _ _) ?_
  cases d with
  | bool p =>
    exact faithful_cons (faithful_ofFloat _ (h p List.mem_cons_self)) (faithful_nil _)
  | intRange min max =>
    exact faithful_cons (.int _ (isWide_toInt min))
      (faithful_cons (.int _ (isWide_toInt max)) (faithful_nil _))
  | floatRange min max =>
    have hmax : ReadsBack max := h max (List.mem_cons_of_mem min List.mem_cons_self)
    exact faithful_cons (faithful_ofFloat _ (h min List.mem_cons_self))
      (faithful_cons (faithful_ofFloat _ hmax) (faithful_nil _))
  | choice options =>
    refine faithful_cons (faithful_map hlist fun o ho => ?_) (faithful_nil _)
    exact faithful_encodeOption hdepth (h o.weight (List.mem_map_of_mem ho))
  | uuid => exact faithful_nil _
  | dateRange min max =>
    exact faithful_cons (.text _ min) (faithful_cons (.text _ max) (faithful_nil _))
  | bucket source thresholds labels =>
    have hthresholds : Faithful depth (.list (thresholds.map fun t => .int t.toInt)) :=
      faithful_map hlist fun t _ => .int _ (isWide_toInt t)
    exact faithful_cons (.text _ source)
      (faithful_cons hthresholds (faithful_cons (faithful_texts hlist labels) (faithful_nil _)))

theorem faithful_encodeDistribution {d : DistributionSpec} (h : ∀ x ∈ d.floats, ReadsBack x) :
    Faithful 0 (encodeDistribution d) :=
  .record (by decide) (faithful_distributionEntries (by decide) h)

theorem faithful_encodeField {depth : Nat} (hdepth : depth + 2 < Json.depthLimit) {f : FieldSpec}
    (h : ∀ x ∈ f.distribution.floats, ReadsBack x) : Faithful depth (encodeField f) :=
  .record (by omega) (faithful_cons (.text _ _) (faithful_distributionEntries hdepth h))

theorem faithful_encodeAggregator {depth : Nat} (hdepth : depth + 1 < Json.depthLimit)
    (a : AggregatorSpec) : Faithful depth (encodeAggregator a) := by
  have hrecord : depth < Json.depthLimit := Nat.lt_of_succ_lt hdepth
  have hkind : ∀ kind : String, Faithful (depth + 1) (.text kind) := .text _
  cases a with
  | count => exact .record hrecord (faithful_cons (hkind _) (faithful_nil _))
  | histogram field =>
    exact .record hrecord (faithful_cons (hkind _) (faithful_cons (.text _ field) (faithful_nil _)))
  | collect fields =>
    exact .record hrecord
      (faithful_cons (hkind _) (faithful_cons (faithful_texts hdepth fields) (faithful_nil _)))
  | csv dir fields stem =>
    have hstem : Faithful (depth + 1) (encodeNullable stem) := by
      cases stem with
      | none => exact .null _
      | some stem => exact .text _ stem
    exact .record hrecord (faithful_cons (hkind _) (faithful_cons (.text _ dir)
      (faithful_cons (faithful_texts hdepth fields) (faithful_cons hstem (faithful_nil _)))))
  | «matches» field value =>
    exact .record hrecord (faithful_cons (hkind _)
      (faithful_cons (.text _ field) (faithful_cons (.text _ value) (faithful_nil _))))

theorem faithful_encodeSettings {depth : Nat} (hdepth : depth < Json.depthLimit) (s : Settings) :
    Faithful depth (encodeSettings s) := by
  have hword : ∀ n : UInt64, Faithful (depth + 1) (.int n.toNat) := fun n => .int _ (isWide_toNat n)
  have hseed : Faithful (depth + 1)
      ((s.randomSeed.map fun seed => Json.int seed.toInt).getD .null) := by
    cases s.randomSeed with
    | none => exact .null _
    | some seed => exact .int _ (isWide_toInt seed)
  exact .record hdepth (faithful_cons hseed (faithful_cons (hword _) (faithful_cons (hword _)
    (faithful_cons (hword _) (faithful_cons (hword _)
      (faithful_cons (.bool _ s.verbose) (faithful_nil _)))))))

theorem faithful_encodeConfig {c : RunConfig}
    (h : ∀ f ∈ c.fields, ∀ x ∈ f.distribution.floats, ReadsBack x) :
    Faithful 0 (encodeConfig c) := by
  have hsettings : Faithful 1 (encodeSettings c.generation) :=
    faithful_encodeSettings (by decide) c.generation
  have hfields : Faithful 1 (.list (c.fields.map encodeField)) :=
    faithful_map (by decide) fun f hf => faithful_encodeField (by decide) (h f hf)
  have haggregators : Faithful 1 (.list (c.aggregators.map encodeAggregator)) :=
    faithful_map (by decide) fun a _ => faithful_encodeAggregator (by decide) a
  exact .record (by decide) (faithful_cons hsettings
    (faithful_cons hfields (faithful_cons haggregators (faithful_nil _))))

/-! ## Doubles of accepted documents -/

/-- The values that the parts of a structure are given by. -/
def values : Parts → List Json
  | .named entries => entries.map (·.2)
  | .positional items => items

theorem mem_values_of_find? {parts : Parts} {place : Nat} {name : String} {v : Json}
    (h : parts.find? place name = some (some v)) : v ∈ values parts := by
  cases parts with
  | named entries =>
    rw [Parts.find?] at h
    split at h
    · cases h
    · rename_i u hu
      cases h
      have hmem : v ∈ Parts.valuesOf entries name := by simp [hu]
      obtain ⟨entry, hentry, rfl⟩ := List.mem_map.mp hmem
      exact List.mem_map_of_mem (List.mem_filter.mp hentry).1
    · cases h
  | positional items =>
    rw [Parts.find?, Option.some.injEq] at h
    exact List.mem_of_getElem? h

/-- A part that is there is read from one of the values. -/
theorem exists_of_required? {α : Type} {parts : Parts} {place : Nat} {name : String}
    {part? : Json → Option α} {a : α} (h : parts.required? place name part? = some a) :
    ∃ v ∈ values parts, part? v = some a := by
  rw [Parts.required?] at h
  obtain ⟨v?, hfind, h⟩ := Option.bind_eq_some_iff.mp h
  obtain ⟨v, rfl, h⟩ := Option.bind_eq_some_iff.mp h
  exact ⟨v, mem_values_of_find? hfind, h⟩

/-- A part with a default is the default or is read from one of the values. -/
theorem exists_of_default? {α : Type} {parts : Parts} {place : Nat} {name : String} {default a : α}
    {part? : Json → Option α} (h : parts.default? place name default part? = some a) :
    a = default ∨ ∃ v ∈ values parts, part? v = some a := by
  rw [Parts.default?] at h
  obtain ⟨v?, hfind, h⟩ := Option.bind_eq_some_iff.mp h
  cases v? with
  | none =>
    cases h
    exact .inl rfl
  | some v => exact .inr ⟨v, mem_values_of_find? hfind, h⟩

/-- A double of a finite document is finite. -/
theorem isFinite_float? {v : Json} {x : Float} (hv : IsFinite v) (h : float? v = some x) :
    x.isFinite = true := by
  cases hv with
  | float hx =>
    cases h
    exact hx
  | int n =>
    -- an integer is taken for the double that is nearest to it
    rw [float?] at h
    cases h
    split_ifs
    · exact Decimal.isFinite_neg (Decimal.isFinite_toFloat _)
    · exact Decimal.isFinite_toFloat _
  | _ => cases h

theorem isFinite_values {v : Json} {parts : Parts} (hv : IsFinite v) (h : Parts.of? v = some parts) :
    ∀ u ∈ values parts, IsFinite u := by
  cases hv with
  | list hitems =>
    cases h
    exact hitems
  | record hentries =>
    cases h
    intro u hu
    obtain ⟨entry, hentry, rfl⟩ := List.mem_map.mp hu
    exact hentries entry hentry
  | _ => cases h

theorem isFinite_option? {v : Json} {o : WeightedLabel} (hv : IsFinite v)
    (h : option? v = some o) : o.weight.isFinite = true := by
  rw [option?] at h
  obtain ⟨parts, hparts, h⟩ := Option.bind_eq_some_iff.mp h
  obtain ⟨label, -, h⟩ := Option.bind_eq_some_iff.mp h
  obtain ⟨weight, hweight, h⟩ := Option.bind_eq_some_iff.mp h
  split_ifs at h
  cases h
  have hone : (1.0 : Float).isFinite = true := by decide +kernel
  obtain rfl | ⟨u, hu, hweight⟩ := exists_of_default? hweight
  · exact hone
  · exact isFinite_float? (isFinite_values hv hparts u hu) hweight

/-- A double that must be there is finite. -/
theorem isFinite_required? {parts : Parts} {place : Nat} {name : String} {x : Float}
    (hparts : ∀ u ∈ values parts, IsFinite u)
    (h : parts.required? place name float? = some x) : x.isFinite = true := by
  obtain ⟨u, hu, hx⟩ := exists_of_required? h
  exact isFinite_float? (hparts u hu) hx

/-- The doubles of a distribution come from its parts or are defaults. -/
theorem isFinite_distributionOf? {kind : String} {parts : Parts} {d : DistributionSpec}
    (hparts : ∀ u ∈ values parts, IsFinite u) (h : distributionOf? kind parts = some d) :
    ∀ x ∈ d.floats, x.isFinite = true := by
  have hhalf : (0.5 : Float).isFinite = true := by decide +kernel
  unfold distributionOf? at h
  dsimp only at h
  -- The kinds come in the order of the definition; the last case is an unknown one.
  split at h
  · obtain ⟨p, hp, h⟩ := Option.bind_eq_some_iff.mp h
    split_ifs at h
    cases h
    rw [DistributionSpec.floats, List.forall_mem_singleton]
    obtain rfl | ⟨u, hu, hp⟩ := exists_of_default? hp
    · exact hhalf
    · exact isFinite_float? (hparts u hu) hp
  · obtain ⟨min, -, h⟩ := Option.bind_eq_some_iff.mp h
    obtain ⟨max, -, h⟩ := Option.bind_eq_some_iff.mp h
    split_ifs at h
    cases h
    exact List.forall_mem_nil _
  · obtain ⟨min, hmin, h⟩ := Option.bind_eq_some_iff.mp h
    obtain ⟨max, hmax, h⟩ := Option.bind_eq_some_iff.mp h
    split_ifs at h
    cases h
    rw [DistributionSpec.floats, List.forall_mem_cons, List.forall_mem_singleton]
    exact ⟨isFinite_required? hparts hmin, isFinite_required? hparts hmax⟩
  · obtain ⟨options, hoptions, h⟩ := Option.bind_eq_some_iff.mp h
    split_ifs at h
    cases h
    obtain ⟨u, hu, hlist⟩ := exists_of_required? hoptions
    cases hparts u hu with
    | list hitems =>
      intro x hx
      obtain ⟨o, ho, rfl⟩ := List.mem_map.mp hx
      obtain ⟨item, hitem, ho⟩ := Json.exists_of_mapM hlist o ho
      exact isFinite_option? (hitems item hitem) ho
    | _ => cases hlist
  · split_ifs at h
    cases h
    exact List.forall_mem_nil _
  · obtain ⟨min, -, h⟩ := Option.bind_eq_some_iff.mp h
    obtain ⟨max, -, h⟩ := Option.bind_eq_some_iff.mp h
    split_ifs at h
    cases h
    exact List.forall_mem_nil _
  · obtain ⟨source, -, h⟩ := Option.bind_eq_some_iff.mp h
    obtain ⟨thresholds, -, h⟩ := Option.bind_eq_some_iff.mp h
    obtain ⟨labels, -, h⟩ := Option.bind_eq_some_iff.mp h
    split_ifs at h
    cases h
    exact List.forall_mem_nil _
  · cases h

/-- Entries that are left over are as finite as all of them. -/
theorem isFinite_filter {entries : List (String × Json)}
    (h : ∀ entry ∈ entries, IsFinite entry.2) (keep : String × Json → Bool) :
    ∀ u ∈ values (.named (entries.filter keep)), IsFinite u := by
  intro u hu
  obtain ⟨entry, hentry, rfl⟩ := List.mem_map.mp hu
  exact h entry (List.mem_filter.mp hentry).1

theorem isFinite_kindAndParts? {v : Json} {kind : String} {parts : Parts} (hv : IsFinite v)
    (h : kindAndParts? v = some (kind, parts)) : ∀ u ∈ values parts, IsFinite u := by
  cases hv with
  | @record entries hentries =>
    rw [kindAndParts?] at h
    split at h
    · cases h
      exact isFinite_filter hentries _
    · cases h
  | @list items hitems =>
    cases items with
    | nil => cases h
    | cons item items =>
      -- a list gives its kind first
      cases item with
      | text =>
        cases h
        exact fun u hu => hitems u (List.mem_cons_of_mem _ hu)
      | _ => cases h
  | _ => cases h

theorem isFinite_distribution? {v : Json} {d : DistributionSpec} (hv : IsFinite v)
    (h : distribution? v = some d) : ∀ x ∈ d.floats, x.isFinite = true := by
  rw [distribution?] at h
  split_ifs at h
  obtain ⟨⟨kind, parts⟩, hparts, h⟩ := Option.bind_eq_some_iff.mp h
  exact isFinite_distributionOf? (isFinite_kindAndParts? hv hparts) h

theorem isFinite_field? {form : Notation} {v : Json} {f : FieldSpec} (hv : IsFinite v)
    (h : field? form v = some f) : ∀ x ∈ f.distribution.floats, x.isFinite = true := by
  unfold field? at h
  split_ifs at h
  cases hv with
  | record hentries =>
    obtain ⟨name, -, h⟩ := Option.bind_eq_some_iff.mp h
    obtain ⟨kind, -, h⟩ := Option.bind_eq_some_iff.mp h
    obtain ⟨d, hd, h⟩ := Option.bind_eq_some_iff.mp h
    cases h
    exact isFinite_distributionOf? (isFinite_filter hentries _) hd
  | _ => cases h

theorem isFinite_config? {form : Notation} {v : Json} {c : RunConfig} (hv : IsFinite v)
    (h : config? form v = some c) :
    ∀ f ∈ c.fields, ∀ x ∈ f.distribution.floats, x.isFinite = true := by
  rw [config?] at h
  obtain ⟨parts, hparts, h⟩ := Option.bind_eq_some_iff.mp h
  obtain ⟨generation, -, h⟩ := Option.bind_eq_some_iff.mp h
  obtain ⟨fields, hfields, h⟩ := Option.bind_eq_some_iff.mp h
  obtain ⟨aggregators, -, h⟩ := Option.bind_eq_some_iff.mp h
  split_ifs at h
  cases h
  obtain ⟨u, hu, hlist⟩ := exists_of_required? hfields
  cases isFinite_values hv hparts u hu with
  | list hitems =>
    intro f hf
    obtain ⟨item, hitem, hfield⟩ := Json.exists_of_mapM hlist f hf
    exact isFinite_field? (hitems item hitem) hfield
  | _ => cases hlist

/-! ## Round trips -/

/-- What a run file is made of, and the run file. -/
inductive Part
  | distribution
  | field
  | aggregator
  | settings
  | config
deriving DecidableEq, Repr

namespace Part

/-- What a part describes. -/
abbrev Value : Part → Type
  | distribution => DistributionSpec
  | field => FieldSpec
  | aggregator => AggregatorSpec
  | settings => Settings
  | config => RunConfig

/-- The document of a description. -/
def encode : (part : Part) → part.Value → Json
  | distribution => encodeDistribution
  | field => encodeField
  | aggregator => encodeAggregator
  | settings => encodeSettings
  | config => encodeConfig

/-- The description that a document holds. -/
def read? : (part : Part) → Json → Option part.Value
  | distribution => distribution?
  | field => field? .json
  | aggregator => aggregator?
  | settings => settings? .json
  | config => config? .json

/-- The description that a JSON text holds, if it is accepted. -/
def ofText? (part : Part) (s : String) : Option part.Value := (Json.ofText s).bind part.read?

/-- The JSON text of a description. -/
def text (part : Part) (a : part.Value) : String := Json.compact (part.encode a)

/-- The doubles of a description. -/
def floats : (part : Part) → part.Value → List Float
  | distribution => DistributionSpec.floats
  | field => fun f => f.distribution.floats
  | aggregator => fun _ => []
  | settings => fun _ => []
  | config => fun c => c.fields.flatMap fun f => f.distribution.floats

/-- The document of a description with finite doubles holds the description. -/
theorem read?_encode {part : Part} {a : part.Value} (h : ∀ x ∈ part.floats a, x.isFinite = true) :
    part.read? (part.encode a) = some a := by
  cases part with
  | distribution => exact distribution?_encodeDistribution h
  | field => exact field?_encodeField h
  | aggregator => exact aggregator?_encodeAggregator a
  | settings => exact settings?_encodeSettings a
  | config => exact config?_encodeConfig fun f hf x hx => h x (List.mem_flatMap.mpr ⟨f, hf, hx⟩)

/-- The document of a description can be carried when its doubles read back. -/
theorem faithful_encode {part : Part} {a : part.Value} (h : ∀ x ∈ part.floats a, ReadsBack x) :
    Faithful 0 (part.encode a) := by
  cases part with
  | distribution => exact faithful_encodeDistribution h
  | field => exact faithful_encodeField (by decide) h
  | aggregator => exact faithful_encodeAggregator (by decide) a
  | settings => exact faithful_encodeSettings (by decide) a
  | config => exact faithful_encodeConfig fun f hf x hx => h x (List.mem_flatMap.mpr ⟨f, hf, hx⟩)

/-- The doubles of a description that a text holds are finite. -/
theorem isFinite_of_ofText? {part : Part} {s : String} {a : part.Value}
    (h : part.ofText? s = some a) : ∀ x ∈ part.floats a, x.isFinite = true := by
  obtain ⟨v, hv, h⟩ := Option.bind_eq_some_iff.mp h
  have hfinite : IsFinite v := .of_ofText hv
  cases part with
  | distribution => exact isFinite_distribution? hfinite h
  | field => exact isFinite_field? hfinite h
  | aggregator => exact List.forall_mem_nil _
  | settings => exact List.forall_mem_nil _
  | config =>
    intro x hx
    obtain ⟨f, hf, hx⟩ := List.mem_flatMap.mp hx
    exact isFinite_config? hfinite h f hf x hx

/-- A description survives being written and read: its document holds it, and so does its text
if each of its doubles, written on its own, reads as the same double. -/
def Survives (part : Part) (a : part.Value) : Prop :=
  part.read? (part.encode a) = some a ∧
    ((∀ x ∈ part.floats a, ReadsBack x) → part.ofText? (part.text a) = some a)

theorem survives_of_isFinite {part : Part} {a : part.Value}
    (h : ∀ x ∈ part.floats a, x.isFinite = true) : part.Survives a := by
  refine ⟨read?_encode h, fun hback => ?_⟩
  rw [ofText?, text, (faithful_encode hback).ofText_compact, Option.bind_some, read?_encode h]

/-- Every description with finite doubles survives being written and read, and so does every
description that an accepted text holds. -/
theorem descriptions_survive (part : Part) :
    (∀ a : part.Value, (∀ x ∈ part.floats a, x.isFinite = true) → part.Survives a) ∧
      ∀ (s : String) (a : part.Value), part.ofText? s = some a → part.Survives a :=
  ⟨fun _ h => survives_of_isFinite h, fun _ _ h => survives_of_isFinite (isFinite_of_ofText? h)⟩

/-- An event with a probability of a quarter, and one that leaves its probability out. -/
theorem descriptions_survive_events :
    (∀ x ∈ distribution.floats (.bool 0.25), x.isFinite = true ∧ ReadsBack x) ∧
      distribution.ofText? (distribution.text (.bool 0.25)) = some (.bool 0.25) ∧
      distribution.ofText? "\x7b\"kind\": \"bool\"\x7d" = some (.bool 0.5) ∧
      distribution.read? (distribution.encode (.bool 0.5)) = some (.bool 0.5) := by
  have hquarter : (0.25 : Float).isFinite = true := by decide +kernel
  have hfinite : ∀ x ∈ distribution.floats (.bool 0.25), x.isFinite = true :=
    List.forall_mem_singleton.mpr hquarter
  have hreads : ReadsBack 0.25 := by
    rw [ReadsBack]
    rfl
  have hback : ∀ x ∈ distribution.floats (.bool 0.25), ReadsBack x :=
    List.forall_mem_singleton.mpr hreads
  have hdocument : Json.ofText "\x7b\"kind\": \"bool\"\x7d" =
      some (.record [("kind", .text "bool")]) := by rfl
  have hdefault : distribution.ofText? "\x7b\"kind\": \"bool\"\x7d" = some (.bool 0.5) := by
    rw [ofText?, hdocument]
    simp [read?, distribution?, Json.readable, Json.readableEntries, kindAndParts?, kindKey,
      Parts.valuesOf, distributionOf?, Parts.default?, Parts.find?, Parts.fits]
  exact ⟨fun x hx => ⟨hfinite x hx, hback x hx⟩,
    ((descriptions_survive distribution).1 (.bool 0.25) hfinite).2 hback, hdefault,
    ((descriptions_survive distribution).2 _ _ hdefault).1⟩

end Part

end SeededRows.RunFile
