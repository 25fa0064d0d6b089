import VisualEncoding.Proofs.Calendar.Intervals
import VisualEncoding.Proofs.Channel.Encoders
import VisualEncoding.Proofs.Channel.Observed
import VisualEncoding.Proofs.Scalar.Wholes
import VisualEncoding.Proofs.Scale.Completion
import VisualEncoding.Proofs.Scale.Style

/-!
# Making and fitting inferred scales

A definition that leaves the family of its scale to inference gets a family whose domains are those that the
type of its field gives rise to. So no dataset can make fitting fail by what its rows hold:

> `ofDef_fit_of_infersFamily`: an encoder that is made can be fitted to every dataset, unless the instants that
> its field shows lie so far out that the calendar has no boundaries around them.

The exception is real (`fit_outsideCalendar`): the ends of a time scale are moved by steps on a clock that
fail in the first and the last days of the calendar (`Calendar.NoRoundEnds`). Without a domain, a range and bins, and
with colors that can be read and blended, an encoder is made in the first place.
-/

namespace VisualEncoding

/-! ## Cutting the unit interval -/

namespace Calendar

/-- However many parts the unit interval is cut into, they are milliseconds. -/
theorem Interval.forSpan_unit (count : Nat) :
    forSpan (0 : Float) 1 count = ofMillis (0 : Float) 1 count := by
  refine forSpan_of_short fun h => ?_
  have hone : Double.value (Scalar.abs ((1 : Float) - 0)) = 1 := Double.value_floatOfInt (n := 1) (by decide)
  have hthousand : Double.value (Decimal.floatOfInt 1000) = (1000 : ℤ) := Double.value_floatOfInt (by decide)
  obtain ⟨hfinite, -, hle⟩ := Double.div_count (x := Scalar.abs ((1 : Float) - 0)) (n := (max count 1 : ℕ)) rfl
    (by rw [hone]; exact zero_le_one) (by omega)
  have hlong := (Double.le_iff_value (Double.isFinite_ofInt (n := 1000) (by decide)) hfinite).mp h
  rw [hthousand] at hlong
  rw [hone] at hle
  exact absurd (hlong.trans hle) (by norm_num)

/-- The unit interval has round ends in both directions. -/
theorem niceSpan_unit (zone : Zone) (reversed : Bool) (count : Nat) :
    ∃ ends, niceSpan zone (if reversed then (1 : Float) else 0) (if reversed then 0 else 1) count = .ok ends := by
  have hunit : (Interval.forSpan (0 : Float) 1 count).unit = .millisecond := by
    rw [Interval.forSpan_unit]
    rfl
  have hsorted : decide ((1 : Float) < 0) = false := by decide
  have hreversed : decide ((0 : Float) < 1) = true := by decide
  have hplain : (!Scalar.isFinite (0 : Float) || !Scalar.isFinite (1 : Float) || (0 : Float) == 1) = false := by
    decide
  cases reversed with
  | false =>
    unfold niceSpan
    simp only [Bool.false_eq_true, if_false, hsorted, hplain]
    rw [Interval.floor_of_millisecond hunit, Interval.ceil_of_millisecond hunit]
    exact ⟨_, rfl⟩
  | true =>
    unfold niceSpan
    simp only [if_true, hreversed, hplain, Bool.false_eq_true, if_false]
    rw [Interval.floor_of_millisecond hunit, Interval.ceil_of_millisecond hunit]
    exact ⟨_, rfl⟩

end Calendar

/-! ## Definitions that leave their scale open -/

/-- Options that leave domain, range and bins open, name a method by which colors are blended if they name any,
and ask for round ends by a flag or a count if they ask for any. -/
structure ScaleOptions.IsPlain {α : Type} (o : ScaleOptions α) : Prop where
  domain : o.setting .domain = none
  range : o.setting .range = none
  bins : o.setting .bins = none
  interpolate : ∀ i, o.setting .interpolate = some i →
    ∃ method gamma, i = .params method gamma ∧ Text.lower method ∈ blendingMethods
  nice : ∀ n, o.setting .nice = some n → (∃ on, n = .flag on) ∨ ∃ x, n = .count x

/-- Every sequential scheme that is registered holds colors. -/
def SchemeRegistry.IsReadable (schemes : SchemeRegistry) : Prop :=
  ∀ name colors, schemes.sequential? name = some colors →
    ∀ text ∈ colors, ∃ color, Color.read text = .ok color

/-- The schemes that are always known hold colors. -/
theorem SchemeRegistry.isReadable_default : SchemeRegistry.IsReadable {} := by
  have hread : ∀ p ∈ Color.sequentialSchemes, ∀ text ∈ p.2, (Color.read text).isOk = true := by
    decide +kernel
  intro name colors hcolors text htext
  obtain ⟨before, after, hsplit, -⟩ := List.lookup_eq_some_iff.mp hcolors
  have hmem : (Text.lower name, colors) ∈ Color.sequentialSchemes := by
    show _ ∈ SchemeRegistry.sequential {}
    rw [hsplit]
    exact List.mem_append_right _ List.mem_cons_self
  have hok := hread _ hmem text htext
  cases hcolor : Color.read text with
  | ok color => exact ⟨color, rfl⟩
  | error fault =>
    rw [hcolor] at hok
    nomatch hok

namespace FieldDef

variable {α : Type} {d : FieldDef α} {role : ChannelRole} {isLocal : Bool} {c : CompleteScaleConfig α}

/-- The definition leaves the family of its scale to inference. -/
def InfersFamily (d : FieldDef α) : Prop :=
  ∀ config, d.scale = some (.enabled config) → config.family = none

/-- The options of the scale, if any are given, are plain. -/
def IsPlain (d : FieldDef α) : Prop :=
  ∀ config, d.scale = some (.enabled config) → config.options.IsPlain

theorem orDefault_cases {config : ScaleConfig α} (h : Configurable.orDefault d.scale = some config) :
    config = default ∨ d.scale = some (.enabled config) := by
  unfold Configurable.orDefault at h
  cases hscale : d.scale with
  | none =>
    rw [hscale] at h
    cases h
    exact Or.inl rfl
  | some part =>
    rw [hscale] at h
    cases part with
    | disabled => nomatch h
    | enabled config' =>
      cases h
      exact Or.inr rfl

/-- The family of such a definition is the inferred one. -/
theorem InfersFamily.infer?_eq (hinfers : d.InfersFamily) (h : d.completeScale role isLocal = some c) :
    ScaleFamily.infer? role d.type d.bin isLocal = some c.family := by
  obtain ⟨config, hconfig, hfamily, -⟩ := exists_asked_of_completeScale h
  have hnone : config.family = none := by
    rcases orDefault_cases hconfig with rfl | hscale
    · rfl
    · exact hinfers config hscale
  rwa [hnone, Option.none_or] at hfamily

theorem IsPlain.completeScale (hplain : d.IsPlain) (h : d.completeScale role isLocal = some c) :
    c.options.IsPlain := by
  obtain ⟨config, hconfig, -, hoptions⟩ := exists_asked_of_completeScale h
  have hgiven : config.options.IsPlain := by
    rcases orDefault_cases hconfig with rfl | hscale
    · exact ⟨rfl, rfl, rfl, nofun, nofun⟩
    · exact hplain config hscale
  -- a setting of the completed options was given, or is a flag that is turned on, and of these only nice counts here
  have hkept : ∀ p v, c.options.setting p = some v → config.options.setting p = some v ∨
      Setting.on? p = some v := by
    intro p v hset
    rw [hoptions, ScaleOptions.completed_setting] at hset
    unfold ScaleOptions.settledSetting at hset
    split at hset
    next => exact (Option.or_eq_some_iff.mp hset).imp_right And.right
    next => nomatch hset
  have hnone : ∀ p, config.options.setting p = none →
      (Setting.on? p : Option (Setting α p)) = none → c.options.setting p = none := by
    intro p hset hdefault
    refine Option.eq_none_iff_forall_ne_some.mpr fun v hv => ?_
    rcases hkept p v hv with h | h
    · nomatch hset.symm.trans h
    · nomatch hdefault.symm.trans h
  refine ⟨hnone _ hgiven.domain rfl, hnone _ hgiven.range rfl, hnone _ hgiven.bins rfl, ?_, ?_⟩
  · intro i hi
    rcases hkept _ i hi with h | h
    · exact hgiven.interpolate i h
    · nomatch h
  · intro n hn
    rcases hkept _ n hn with h | h
    · exact hgiven.nice n h
    · exact Or.inl ⟨true, (Option.some.inj h).symm⟩

end FieldDef

namespace CompleteScaleConfig

variable {α : Type} [Scalar α] {c : CompleteScaleConfig α} {schemes : SchemeRegistry}

theorem exists_spaceOfMethod {method : String} (h : Text.lower method ∈ blendingMethods)
    (gamma : Option α) : ∃ space, spaceOfMethod method gamma = .ok space := by
  unfold spaceOfMethod
  generalize Text.lower method = name at h
  simp only [blendingMethods, List.mem_cons, List.not_mem_nil, or_false] at h
  rcases h with rfl | rfl | rfl | rfl | rfl <;> exact ⟨_, rfl⟩

/-- Plain options can be read in every family there is. -/
theorem hasStyle_of_isPlain (h : c.options.IsPlain) (hs : c.family ≠ .symlog)
    (hschemes : schemes.IsReadable) : c.HasStyle schemes := by
  have hbins : c.checkBins = .ok () := by
    unfold checkBins setting
    rw [h.bins]
  have hcount : ∃ count?, c.niceCount? = .ok count? := by
    unfold niceCount? setting
    cases hnice : c.options.setting .nice with
    | none => exact ⟨_, rfl⟩
    | some n => rcases h.nice n hnice with ⟨on, rfl⟩ | ⟨x, rfl⟩ <;> exact ⟨_, rfl⟩
  have hspace : ∃ space?, c.colorSpace? = .ok space? := by
    unfold colorSpace? setting
    cases hset : c.options.setting .interpolate with
    | none => exact ⟨_, rfl⟩
    | some i =>
      obtain ⟨method, gamma, rfl, hmethod⟩ := h.interpolate i hset
      obtain ⟨space, hspace⟩ := exists_spaceOfMethod hmethod gamma
      dsimp only
      rw [hspace]
      exact ⟨_, rfl⟩
  have hstops : ∃ range, c.outputStops? schemes = .ok range := by
    unfold outputStops?
    cases hrange : c.rangeOrScheme? schemes with
    | none => exact ⟨_, rfl⟩
    | some range =>
      refine (outputRange_eq_ok_iff .oklab).mpr (Or.inr ?_)
      unfold rangeOrScheme? setting at hrange
      rw [h.range] at hrange
      obtain ⟨colors, hcolors, rfl⟩ := Option.map_eq_some_iff.mp hrange
      obtain ⟨name, -, hname⟩ := Option.bind_eq_some_iff.mp hcolors
      exact ⟨colors, rfl, hschemes name colors hname⟩
  have hcontinuous : ∃ style, c.continuousStyle schemes = .ok style := by
    obtain ⟨range, hrange⟩ := hstops
    obtain ⟨space?, hspace⟩ := hspace
    obtain ⟨count?, hcount⟩ := hcount
    unfold continuousStyle
    rw [hrange, hbins, hspace, hcount]
    exact ⟨_, rfl⟩
  have hbands : ∃ ends, c.bandEnds = .ok ends := by
    unfold bandEnds setting
    rw [h.range]
    exact ⟨_, rfl⟩
  unfold HasStyle
  cases hf : c.family with
  | symlog => exact absurd hf hs
  | linear | log | pow | sqrt | time | utc => exact hcontinuous
  | point | band => exact hbands
  | quantize => exact ⟨hbins, hcount⟩
  | binOrdinal => exact hbins
  | ordinal | quantile | threshold => trivial

end CompleteScaleConfig

/-! ## Plans of inferred scales -/

/-- The ends of the unit interval have places on every axis. -/
theorem Value.place?_unit (isTime : Bool) :
    (Value.number (0 : Float)).place? isTime = some 0 ∧ (Value.number (1 : Float)).place? isTime = some 1 := by
  have hzero : Scalar.toInt64 (0 : Float) = 0 := by decide +kernel
  have hone : Scalar.toInt64 (1 : Float) = 1 := by decide +kernel
  cases isTime with
  | false => exact ⟨toNumber?_number (x := (0 : Float)) (by decide), toNumber?_number (x := (1 : Float)) (by decide)⟩
  | true =>
    unfold place? toInstant?
    dsimp only
    rw [if_pos rfl, if_pos (by decide), if_pos rfl, if_pos (by decide), hzero, hone]
    exact ⟨rfl, rfl⟩

namespace FieldDef

variable {d : FieldDef Float} {role : ChannelRole} {isLocal : Bool} {c : CompleteScaleConfig Float}
  {schemes : SchemeRegistry} {dataset : List (Datum Float)}

/-- The scale, a time scale with an open domain, asks for round ends, and the calendar has no boundary below the first
instant that the field shows in a dataset or none above the last. -/
def LeavesCalendar (d : FieldDef Float) (role : ChannelRole) (isLocal : Bool) (dataset : List (Datum Float))
    (fault : Calendar.IntervalFault) : Prop :=
  ∃ (c : CompleteScaleConfig Float) (lo hi : Calendar.Instant) (a b : Float) (count : Nat),
    d.completeScale role isLocal = some c ∧ c.isOpen = true ∧ c.family.isTime = true ∧
    Order.extent? Calendar.Instant.before (d.instants dataset) = some (lo, hi) ∧
    c.orient [Scalar.ofInt lo.millis, Scalar.ofInt hi.millis] = [a, b] ∧ c.niceCount? = .ok (some count) ∧
    Calendar.NoRoundEnds (Calendar.Zone.ofLocal (c.family == .time)) a b count fault

/-- An inferred scale of numbers or of time has two ends in every dataset. -/
theorem InfersFamily.observed_ends (hinfers : d.InfersFamily) (h : d.completeScale role isLocal = some c)
    (hordinal : c.family ≠ .ordinal) (hbanded : c.family.isBanded = false) (dataset : List (Datum Float)) :
    ∃ u v x y, CompleteChannelDef.observedDomain (.field (d.complete role isLocal)) dataset = [u, v] ∧
      u.place? c.family.isTime = some x ∧ v.place? c.family.isTime = some y := by
  rcases ScaleFamily.infer?_cases (hinfers.infer?_eq h) with hf | hf | ⟨htype, hf⟩ | ⟨htype, hf⟩
  · exact absurd hf hordinal
  · exact nomatch hbanded.symm.trans hf
  · have htime : c.family.isTime = false := by
      rcases hf with hf | hf | hf <;> rw [hf] <;> rfl
    rw [observedDomain_of_quantitative htype, htime]
    cases hextent : Order.extent? (fun x y => decide (x < y)) (d.numbers dataset) with
    | none => exact ⟨_, _, 0, 1, rfl, Value.place?_unit false⟩
    | some ends =>
      obtain ⟨lo, hi⟩ := ends
      obtain ⟨hlo, hhi⟩ := Order.mem_of_extent? hextent
      exact ⟨_, _, lo, hi, rfl, Value.toNumber?_number (isNaN_of_mem_numbers hlo),
        Value.toNumber?_number (isNaN_of_mem_numbers hhi)⟩
  · have htime : c.family.isTime = true := by
      rcases hf with hf | hf <;> rw [hf] <;> rfl
    rw [observedDomain_of_temporal htype, htime]
    cases Order.extent? Calendar.Instant.before (d.instants dataset) with
    | none => exact ⟨_, _, 0, 1, rfl, Value.place?_unit true⟩
    | some ends => exact ⟨_, _, _, _, rfl, rfl, rfl⟩

/-- Without a domain there is nothing that the calendar could refuse. -/
theorem not_leavesCalendar_of_none {fault : Calendar.IntervalFault} (hopen : c.setting .domain = none) :
    ¬ c.LeavesCalendar fault := by
  rintro ⟨-, domain?, a, b, count, hdomain, hends, -, hfault⟩
  cases (c.numericDomain?_of_none hopen true).symm.trans hdomain
  cases hends
  obtain ⟨ends, hok⟩ := Calendar.niceSpan_unit (Calendar.Zone.ofLocal (c.family == .time)) false count
  exact Calendar.not_noRoundEnds_of_ok (Calendar.Zone.lags_ofLocal _) hok hfault

/-- A plain definition has a plan for its scale. -/
theorem IsPlain.exists_plan (hplain : d.IsPlain) (hinfers : d.InfersFamily)
    (hschemes : schemes.IsReadable) (h : d.completeScale role isLocal = some c) :
    ∃ plan, c.plan schemes = .ok plan := by
  have hoptions := hplain.completeScale h
  have hopen : c.setting .domain = none := hoptions.domain
  have hfamily : c.family ≠ .symlog := by
    intro hf
    have hcases := ScaleFamily.infer?_cases (hinfers.infer?_eq h)
    rw [hf] at hcases
    simp [ScaleFamily.isBanded] at hcases
  have hread := CompleteScaleConfig.plan_of_hasStyle
    (CompleteScaleConfig.hasStyle_of_isPlain hoptions hfamily hschemes)
    (fun entries hset => nomatch hopen.symm.trans hset)
    (fun _ _ => ⟨none, 0, 1, CompleteScaleConfig.numericDomain?_of_none hopen _, rfl⟩)
  rcases hread with hplan | ⟨fault, -, hleaves⟩
  · exact hplan
  · exact absurd hleaves (not_leavesCalendar_of_none hopen)

/-- A scale that has a plan without a domain has one over every domain that is observed, unless the instants
leave the calendar. -/
theorem InfersFamily.plan_withDomain (hinfers : d.InfersFamily) (h : d.completeScale role isLocal = some c)
    (hopen : c.isOpen = true) {plan : ScalePlan Float} (hplan : c.plan schemes = .ok plan)
    (dataset : List (Datum Float)) :
    let values := CompleteChannelDef.observedDomain (.field (d.complete role isLocal)) dataset
    (∃ plan, (c.withDomain values).plan schemes = .ok plan) ∨
      ∃ fault, (c.withDomain values).plan schemes = .error (.calendar fault) ∧ c.family.isTime = true ∧
        d.LeavesCalendar role isLocal dataset fault := by
  intro values
  have hset : (c.withDomain values).setting .domain = some (values.map .value) :=
    CompleteScaleConfig.setting_withSetting_self _
  have hstyle : (c.withDomain values).HasStyle schemes :=
    CompleteScaleConfig.hasStyle_withSetting_domain
      (CompleteScaleConfig.hasStyle_of_plan hplan (CompleteScaleConfig.isOpen_iff.mp hopen)) _
  have horient : ∀ x y : Float, (c.withDomain values).orient [x, y] = c.orient [x, y] := by
    intro x y
    unfold CompleteScaleConfig.orient
    rw [CompleteScaleConfig.withDomain_eq, CompleteScaleConfig.isReversed_withSetting_of_ne (by decide)]
  have hends : c.family ≠ .ordinal → c.family.isBanded = false → ∃ domain? a b,
      (c.withDomain values).numericDomain? c.family.isTime = .ok domain? ∧
        domain?.elim [0, 1] (c.withDomain values).orient = [a, b] := by
    intro hordinal hbanded
    obtain ⟨u, v, x, y, hvalues, hu, hv⟩ := hinfers.observed_ends h hordinal hbanded dataset
    obtain ⟨a, b, hab⟩ := c.exists_orient_pair x y
    refine ⟨some [x, y], a, b, ?_, (horient x y).trans hab⟩
    rw [show values = [u, v] from hvalues]
    exact CompleteScaleConfig.numericDomain?_withDomain hu hv
  refine (CompleteScaleConfig.plan_of_hasStyle hstyle
    (fun entries hentries => ⟨values, Option.some.inj (hentries.symm.trans hset)⟩) hends).imp_right ?_
  rintro ⟨fault, hfault, htime, domain?, a, b, count, hdomain, hab, hcount, hspan⟩
  refine ⟨fault, hfault, htime, ?_⟩
  have htype : d.type = .temporal := ScaleFamily.temporal_of_infer? (hinfers.infer?_eq h) htime
  have hvalues : values = _ := observedDomain_of_temporal htype
  rw [hvalues] at hdomain
  cases hextent : Order.extent? Calendar.Instant.before (d.instants dataset) with
  | none =>
    -- the unit interval, which stands for no instants, has round ends
    rw [hextent] at hdomain
    obtain ⟨hzero, hone⟩ := Value.place?_unit true
    cases (CompleteScaleConfig.numericDomain?_withDomain (c := c) hzero hone).symm.trans hdomain
    obtain ⟨ends, hok⟩ := Calendar.niceSpan_unit (Calendar.Zone.ofLocal (c.family == .time)) c.isReversed count
    have hpair : [a, b] = if c.isReversed then [1, 0] else [0, 1] := hab.symm.trans (horient 0 1)
    cases hreversed : c.isReversed <;> rw [hreversed] at hpair hok <;> cases hpair <;>
      exact absurd hspan (Calendar.not_noRoundEnds_of_ok (Calendar.Zone.lags_ofLocal _) hok)
  | some ends =>
    obtain ⟨lo, hi⟩ := ends
    rw [hextent] at hdomain
    have hplace : ∀ t : Calendar.Instant,
        (Value.dateTime t : Value Float).place? true = some (Scalar.ofInt t.millis) := fun t => rfl
    cases (CompleteScaleConfig.numericDomain?_withDomain (c := c) (hplace lo) (hplace hi)).symm.trans hdomain
    refine ⟨c, lo, hi, a, b, count, h, hopen, htime, hextent, (horient _ _).symm.trans hab, ?_, hspan⟩
    rw [← hcount, CompleteScaleConfig.withDomain_eq, CompleteScaleConfig.niceCount?_withSetting (by decide)]

end FieldDef

/-! ## Encoders -/

namespace ChannelEncoder

open CompleteScaleConfig (realize_of_error_of_not_sharesColors not_sharesColors_of_family_ne)

/-- **Making and fitting inferred scales.** Let a definition leave the family of its scale to inference. If it is
plain otherwise and every registered sequential scheme holds colors, then it becomes an encoder. If it has become
an encoder in one session, then this is fitted to every dataset in every session with the same schemes, unless
the calendar has no boundaries around the instants that the field shows. -/
theorem ofDef_fit_of_infersFamily {d : FieldDef Float} (hinfers : d.InfersFamily) (name : String)
    (role : ChannelRole) (isLocal : Bool) (session : Session Float) :
    (d.IsPlain → session.colors.schemes.IsReadable →
      ∃ e after, (ofDef name role (.field d) isLocal).run.run session = (.ok e, after)) ∧
    ∀ e after, (ofDef name role (.field d) isLocal).run.run session = (.ok e, after) →
      ∀ later : Session Float, later.colors.schemes = session.colors.schemes →
        ∀ dataset : List (Datum Float),
          (∃ e' after', (e.fit dataset).run.run later = (.ok e', after')) ∨
          ∃ fault, (e.fit dataset).run.run later = (.error (.calendar fault), later) ∧
            d.LeavesCalendar role isLocal dataset fault := by
  constructor
  · intro hplain hschemes
    cases hscale : d.completeScale role isLocal with
    | none => exact ⟨_, _, ofComplete_of_none (d := .field (d.complete role isLocal)) hscale name role isLocal session⟩
    | some c =>
      exact (exists_ofComplete_iff (d := .field (d.complete role isLocal)) hscale).mpr
        (hplain.exists_plan hinfers hschemes hscale)
  · intro e after he later hlater dataset
    have hdefinition : e.definition = .field (d.complete role isLocal) := definition_of_ofComplete he
    cases hfitted : e.definition.fitted? dataset with
    | none =>
      rw [fit_of_not_fitted hfitted]
      exact Or.inl ⟨e, later, rfl⟩
    | some fitted =>
      rw [fit_of_fitted hfitted]
      rw [hdefinition] at hfitted
      obtain ⟨c, hc, rfl⟩ := Option.map_eq_some_iff.mp hfitted
      obtain ⟨hscale, hopen⟩ := Option.filter_eq_some_iff.mp hc
      obtain ⟨plan, hplan⟩ := (exists_ofComplete_iff (d := .field (d.complete role isLocal)) hscale).mp ⟨e, after, he⟩
      rw [← hlater] at hplan
      rcases hinfers.plan_withDomain hscale hopen hplan dataset with hplan' | ⟨fault, hplan', htime, hleaves⟩
      · exact Or.inl ((exists_ofComplete_iff rfl).mpr hplan')
      · refine Or.inr ⟨fault, ?_, hleaves⟩
        have hfamily : c.family ≠ .ordinal := by
          intro hf
          rw [hf] at htime
          nomatch htime
        have hshares : ∀ values, (c.withDomain values).sharesColors = false :=
          fun values => not_sharesColors_of_family_ne hfamily
        rw [ofComplete_of_some rfl, realize_of_error_of_not_sharesColors (hshares _) hplan']
        rfl

/-- In a session with the schemes that are always known a field of numbers is shown whatever it holds, and a field of
instants if it shows the first two days of 1970. -/
theorem ofDef_fit_of_infersFamily_numbersAndDays :
    (∃ e after, (ofDef "x" .x (.field { field := "v", type := .quantitative }) false).run.run {}
        = (.ok e, after) ∧
      ∀ later : Session Float, later.colors.schemes = {} → ∀ dataset : List (Datum Float),
        ∃ e' after', (e.fit dataset).run.run later = (.ok e', after')) ∧
    ∃ e after, (ofDef "x" .x (.field { field := "t", type := .temporal }) false).run.run {} = (.ok e, after) ∧
      ∀ later : Session Float, later.colors.schemes = {} → ∀ dataset : List (Datum Float),
        Order.extent? Calendar.Instant.before (FieldDef.instants { field := "t", type := .temporal } dataset)
          = some (⟨0, 0⟩, ⟨86400, 0⟩) →
        ∃ e' after', (e.fit dataset).run.run later = (.ok e', after') := by
  constructor
  · let d : FieldDef Float := { field := "v", type := .quantitative }
    have hinfers : d.InfersFamily := fun config h => nomatch h
    obtain ⟨hmade, hfit⟩ := ofDef_fit_of_infersFamily hinfers "x" .x false {}
    obtain ⟨e, after, he⟩ := hmade (fun config h => nomatch h) SchemeRegistry.isReadable_default
    refine ⟨e, after, he, ?_⟩
    intro later hlater dataset
    rcases hfit e after he later hlater dataset with h | ⟨fault, -, c, _, _, _, _, _, hscale, -, htime, -⟩
    · exact h
    · cases hscale
      nomatch htime
  · let d : FieldDef Float := { field := "t", type := .temporal }
    have hinfers : d.InfersFamily := fun config h => nomatch h
    obtain ⟨hmade, hfit⟩ := ofDef_fit_of_infersFamily hinfers "x" .x false {}
    obtain ⟨e, after, he⟩ := hmade (fun config h => nomatch h) SchemeRegistry.isReadable_default
    refine ⟨e, after, he, ?_⟩
    intro later hlater dataset hdays
    rcases hfit e after he later hlater dataset with
      h | ⟨fault, -, c, lo, hi, a, b, count, hscale, -, -, hextent, hends, hcount, hspan⟩
    · exact h
    · cases hscale
      cases hdays.symm.trans hextent
      cases hends
      cases hcount
      have hok : (Calendar.niceSpan (Calendar.Zone.ofLocal false) (Scalar.ofInt 0 : Float)
          (Scalar.ofInt 86400000) 10).isOk = true := by
        decide +kernel
      cases hnice : Calendar.niceSpan (Calendar.Zone.ofLocal false) (Scalar.ofInt 0 : Float)
          (Scalar.ofInt 86400000) 10 with
      | ok ends => exact absurd hspan (Calendar.not_noRoundEnds_of_ok (Calendar.Zone.lags_ofLocal _) hnice)
      | error fault' =>
        rw [hnice] at hok
        nomatch hok

/-- The first and the hundred-and-first day of the calendar. -/
def firstDays : List (Datum Float) :=
  let day (month day : Nat) : Value Float :=
    .dateTime (Calendar.ClockReading.startOf { year := Calendar.leastYear, month, day }).toInstant
  [[("t", day 1 1)], [("t", day 4 11)]]

/-- The week in which the first day of the calendar lies has begun before it. -/
theorem fit_outsideCalendar :
    ∃ e after, (ofDef "x" .x (.field { field := "t", type := .temporal }) false).run.run {} = (.ok e, after) ∧
      (e.fit firstDays).run.run after = (.error (.calendar .outsideCalendar), after) :=
  ⟨_, _, rfl, rfl⟩

end ChannelEncoder

end VisualEncoding
