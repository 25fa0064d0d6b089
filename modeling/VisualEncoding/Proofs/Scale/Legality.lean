import VisualEncoding.Proofs.Scale.Realization
import VisualEncoding.Proofs.Scale.Settings

/-!
# A plan reads only supported settings

`ScaleFamily.supports` says which settings mean something on which family, and the plan of a config
decides by stages which of them it reads. The stages are shared between families, so nothing but these
theorems keeps a stage of one family from reading a setting of another.

`CompleteScaleConfig.restricted` drops what the table rejects. Each reader of a setting gets a lemma
that says on which families dropping makes no difference to it; the readers of domain, range and
orientation, which every family supports, do not notice at all. The families are put together from
these, and the session follows, since it sees a config only through its plan:

> `realize_restricted`: dropping the unsupported settings changes neither the scale nor the problem.

Two stages are wider than the table. A quantize scale refuses bins like every scale that could have
them, although it could not (`quantize_eq_error_of_bins`), and a log scale takes in zero when it is told
to (`AsksLogForZero`, outside of the theorem). Every other config is covered.
-/

namespace VisualEncoding

namespace CompleteScaleConfig

variable {α : Type} {c : CompleteScaleConfig α}

/-! ## Settings -/

theorem restricted_setting_of_supports {p : ScaleProperty} (h : c.family.supports p = true) :
    c.restricted.setting p = c.setting p :=
  (ScaleOptions.setting_restrictedTo c.options c.family p).trans (if_pos h)

theorem restricted_setting_of_not_supports {p : ScaleProperty} (h : c.family.supports p = false) :
    c.restricted.setting p = none :=
  (ScaleOptions.setting_restrictedTo c.options c.family p).trans (if_neg (by rw [h]; exact Bool.false_ne_true))

/-- Every family supports a scheme but those of bands. -/
theorem supports_scheme (h : c.family.isBanded = false) : c.family.supports .scheme = true := by
  show (!c.family.isBanded) = true
  rw [h]
  rfl

/-- No continuous family is one of bands. -/
theorem isBanded_of_isContinuous (h : c.family.isContinuous = true) : c.family.isBanded = false := by
  cases hf : c.family with
  | point | band => rw [hf] at h; exact absurd h (by decide)
  | _ => rfl

/-- What a family supports because it is continuous. -/
theorem supports_of_isContinuous (h : c.family.isContinuous = true) :
    c.family.supports .clamp = true ∧ c.family.supports .interpolate = true ∧
      c.family.supports .nice = true ∧ c.family.supports .round = true ∧
      c.family.supports .bins = true := by
  simp only [ScaleFamily.supports, h, Bool.true_or, and_self]

/-! ## Settings that lie outside of a family and are read -/

/-- A log scale is told to take in zero, which its family does not support. -/
def AsksLogForZero (c : CompleteScaleConfig α) : Prop :=
  c.family = .log ∧ ScaleOptions.isOn (c.setting .zero) = true

/-- A quantize scale is given bins, which its family does not support. -/
def GivesQuantizeBins (c : CompleteScaleConfig α) : Prop :=
  c.family = .quantize ∧ (c.setting .bins).isSome

/-! ## Readers of what every family supports -/

theorem family_restricted : c.restricted.family = c.family := by
  unfold restricted
  rfl

theorem setting_range_restricted : c.restricted.setting .range = c.setting .range :=
  restricted_setting_of_supports rfl

theorem isReversed_restricted : c.restricted.isReversed = c.isReversed :=
  congrArg ScaleOptions.isOn (restricted_setting_of_supports rfl)

theorem orient_restricted {β : Type} (items : List β) : c.restricted.orient items = c.orient items := by
  unfold orient
  rw [isReversed_restricted]

theorem numericDomain?_restricted [Scalar α] (isTime : Bool) :
    c.restricted.numericDomain? isTime = c.numericDomain? isTime := by
  have hentry : c.restricted.numberOfEntry isTime = c.numberOfEntry isTime := rfl
  unfold numericDomain?
  rw [restricted_setting_of_supports (p := .domain) rfl, hentry]

theorem discreteDomain?_restricted : c.restricted.discreteDomain? = c.discreteDomain? := by
  unfold discreteDomain?
  rw [restricted_setting_of_supports (p := .domain) rfl]
  simp only [orient_restricted]

/-! ## Readers of one setting -/

theorem rangeOrScheme?_restricted (schemes : SchemeRegistry) (h : c.family.isBanded = false) :
    c.restricted.rangeOrScheme? schemes = c.rangeOrScheme? schemes := by
  unfold rangeOrScheme?
  rw [restricted_setting_of_supports (supports_scheme h), setting_range_restricted]

theorem groupRange_restricted (schemes : SchemeRegistry) (default : List (Value α))
    (h : c.family.isBanded = false) :
    c.restricted.groupRange schemes default = c.groupRange schemes default := by
  unfold groupRange
  rw [rangeOrScheme?_restricted schemes h, orient_restricted]

theorem checkBins_restricted (h : c.family.supports .bins = true) :
    c.restricted.checkBins = c.checkBins := by
  unfold checkBins
  rw [restricted_setting_of_supports h]

theorem colorSpace?_restricted [Scalar α] (h : c.family.supports .interpolate = true) :
    c.restricted.colorSpace? = c.colorSpace? := by
  unfold colorSpace?
  rw [restricted_setting_of_supports h]

theorem niceCount?_restricted [Scalar α] (h : c.family.supports .nice = true) :
    c.restricted.niceCount? = c.niceCount? := by
  unfold niceCount?
  rw [restricted_setting_of_supports h]

/-- A base is read on log scales only, an exponent on power scales only. -/
theorem transform_restricted [Scalar α] : c.restricted.transform = c.transform := by
  unfold transform
  rw [family_restricted]
  cases hf : c.family with
  | log | pow => simp only [restricted_setting_of_supports, hf, ScaleFamily.supports, beq_self_eq_true]
  | _ => rfl

/-- The only family that would take in zero without supporting it is the logarithmic one: spans of time
are asked for it in vain. -/
theorem takesZero_restricted (hc : c.family.isContinuous = true) (hlog : ¬ c.AsksLogForZero) :
    (ScaleOptions.isOn (c.restricted.setting .zero) && !c.restricted.family.isTime)
      = (ScaleOptions.isOn (c.setting .zero) && !c.family.isTime) := by
  show (_ && !c.family.isTime) = _
  cases hf : c.family with
  | linear | pow | sqrt | symlog => rw [restricted_setting_of_supports (by rw [hf]; rfl)]
  -- the flag is dropped on either side
  | time | utc => exact (Bool.and_false _).trans (Bool.and_false _).symm
  | log =>
    have hoff : ScaleOptions.isOn (c.setting .zero) = false := by
      cases hz : ScaleOptions.isOn (c.setting .zero) with
      | false => rfl
      | true => exact absurd ⟨hf, hz⟩ hlog
    rw [restricted_setting_of_not_supports (by rw [hf]; rfl), hoff]
    rfl
  | _ => rw [hf] at hc; exact absurd hc (by decide)

/-! ## Families -/

variable [Scalar α]

theorem continuousStops_restricted (schemes : SchemeRegistry) (hc : c.family.isContinuous = true) :
    c.restricted.continuousStops schemes = c.continuousStops schemes := by
  unfold continuousStops
  simp only [transform_restricted, rangeOrScheme?_restricted schemes (isBanded_of_isContinuous hc),
    family_restricted, numericDomain?_restricted, orient_restricted, isReversed_restricted]

/-- The continuous families, unless a log scale is asked for zero. -/
theorem continuous_restricted (schemes : SchemeRegistry) (hc : c.family.isContinuous = true)
    (hlog : ¬ c.AsksLogForZero) : c.restricted.continuous schemes = c.continuous schemes := by
  obtain ⟨hclamp, hspace, hnice, hround, hbins⟩ := supports_of_isContinuous hc
  unfold continuous
  rw [continuousStops_restricted schemes hc, checkBins_restricted hbins, colorSpace?_restricted hspace,
    niceCount?_restricted hnice, restricted_setting_of_supports hclamp,
    restricted_setting_of_supports hround, takesZero_restricted hc hlog]

/-- A setter that leaves the kind of a scale alone leaves it alone too where the config leaves the setter
out. -/
theorem isPoint_getD {β : Type} {set : β → Band α} {s : Band α} (h : ∀ x, (set x).isPoint = s.isPoint)
    (value : Option β) : ((value.map set).getD s).isPoint = s.isPoint := by
  cases value with
  | none => rfl
  | some x => exact h x

theorem isPoint_withAlign (s : Band α) (align : α) : (s.withAlign align).isPoint = s.isPoint := rfl

theorem isPoint_withPadding (s : Band α) (padding : α) :
    (s.withPadding padding).isPoint = s.isPoint := by
  unfold Band.withPadding Band.withPaddingInner Band.withPaddingOuter
  split <;> rfl

/-- An inner padding is of no effect on a point scale. -/
theorem withPaddingInner_getD {s : Band α} (h : s.isPoint = true) (padding : Option α) :
    (padding.map s.withPaddingInner).getD s = s := by
  cases padding with
  | none => rfl
  | some x => exact if_pos h

/-- The kind of a banded scale is that of its family, whatever its domain and range. -/
theorem isPoint_of_bandStops {s : Band α} (h : c.bandStops = .ok s) :
    s.isPoint = (c.family == .point) := by
  unfold bandStops at h
  obtain ⟨domain?, -, h⟩ := Outcome.bind_eq_ok_iff.mp h
  dsimp only at h
  cases hr : c.setting .range with
  | none =>
    rw [hr] at h
    cases h
    cases domain? <;> cases c.isReversed <;> rfl
  | some range =>
    rw [hr] at h
    obtain ⟨ends, -, h⟩ := Outcome.bind_eq_ok_iff.mp h
    cases h
    cases domain? <;> cases c.isReversed <;> rfl

/-- A point scale has no inner padding to set. -/
theorem spaced_restricted_of_point (hf : c.family = .point) {s : Band α} (h : s.isPoint = true) :
    c.restricted.spaced s = c.spaced s := by
  have hs : ∀ p, ScaleFamily.point.supports p = true → c.restricted.setting p = c.setting p := by
    intro p hp
    exact restricted_setting_of_supports (by rw [hf]; exact hp)
  have hinner : c.restricted.setting .paddingInner = none :=
    restricted_setting_of_not_supports (by rw [hf]; rfl)
  have haligned : (((c.setting .align).map s.withAlign).getD s).isPoint = true :=
    (isPoint_getD (isPoint_withAlign s) _).trans h
  -- the inner padding comes after two setters, which leave a point scale one
  have hpadded := (isPoint_getD (isPoint_withPadding _) (c.setting .padding)).trans haligned
  unfold spaced
  rw [hs .align rfl, hs .padding rfl, hs .paddingOuter rfl, hs .round rfl, hinner]
  dsimp only
  rw [withPaddingInner_getD hpadded, withPaddingInner_getD hpadded]

/-- A band scale supports all that a band is made of. -/
theorem spaced_restricted_of_band (hf : c.family = .band) (s : Band α) :
    c.restricted.spaced s = c.spaced s := by
  have hs : ∀ p, ScaleFamily.band.supports p = true → c.restricted.setting p = c.setting p := by
    intro p hp
    exact restricted_setting_of_supports (by rw [hf]; exact hp)
  unfold spaced
  rw [hs .align rfl, hs .padding rfl, hs .paddingInner rfl, hs .paddingOuter rfl, hs .round rfl]

/-- Where bands lie is told by settings of every family. -/
theorem bandStops_restricted : c.restricted.bandStops = c.bandStops := by
  unfold bandStops
  simp only [family_restricted, setting_range_restricted, discreteDomain?_restricted, isReversed_restricted]
  rfl

/-- The families of bands. -/
theorem band_restricted (hb : c.family.isBanded = true) : c.restricted.band = c.band := by
  unfold band
  rw [bandStops_restricted]
  cases hs : c.bandStops with
  | error p => rfl
  | ok s =>
    refine congrArg Except.ok ?_
    cases hf : c.family with
    | point => exact spaced_restricted_of_point hf (by rw [isPoint_of_bandStops hs, hf]; rfl)
    | band => exact spaced_restricted_of_band hf s
    | _ => rw [hf] at hb; exact absurd hb (by decide)

/-- An ordinal scale supports the scheme and the group of its colors. -/
theorem ordinal_restricted (hf : c.family = .ordinal) : c.restricted.ordinal = c.ordinal := by
  unfold ordinal
  rw [restricted_setting_of_supports (p := .scheme) (by rw [hf]; rfl),
    restricted_setting_of_supports (p := .colorGroup) (by rw [hf]; rfl), discreteDomain?_restricted,
    setting_range_restricted]

/-- A quantize scale without bins. -/
theorem quantize_restricted (schemes : SchemeRegistry) (hf : c.family = .quantize)
    (hbins : c.setting .bins = none) : c.restricted.quantize schemes = c.quantize schemes := by
  have hbins' : c.restricted.setting .bins = none :=
    restricted_setting_of_not_supports (by rw [hf]; rfl)
  have hcheck : c.restricted.checkBins = c.checkBins := by
    unfold checkBins
    rw [hbins, hbins']
  unfold quantize
  rw [groupRange_restricted schemes unitRange (by rw [hf]; rfl), hcheck,
    niceCount?_restricted (by rw [hf]; rfl), restricted_setting_of_supports (by rw [hf]; rfl),
    numericDomain?_restricted]

/-- A quantize scale with bins is refused, though its family could not have any: for what is wrong with
its domain, or else for the bins. -/
theorem quantize_eq_error_of_bins (schemes : SchemeRegistry) (hbins : (c.setting .bins).isSome) :
    ∃ p, c.quantize schemes = .error p ∧
      (p = .missingFeature .bins ∨ c.numericDomain? false = .error p) := by
  obtain ⟨bins, hset⟩ := Option.isSome_iff_exists.mp hbins
  have hcheck : c.checkBins = .error (.missingFeature .bins) := by
    unfold checkBins
    rw [hset]
  unfold quantize
  rw [hcheck]
  cases hd : c.numericDomain? false with
  | error p => exact ⟨p, rfl, Or.inr rfl⟩
  | ok domain? => exact ⟨.missingFeature .bins, rfl, Or.inl rfl⟩

/-- What is wrong with its domain is the first thing that a quantize scale is refused for. -/
theorem quantize_eq_error_of_domain (schemes : SchemeRegistry) {p : Problem α}
    (h : c.numericDomain? false = .error p) : c.quantize schemes = .error p := by
  unfold quantize
  rw [h]
  rfl

/-! ## Plans -/

/-- A plan reads no unsupported setting, with two exceptions. -/
theorem plan_restricted (schemes : SchemeRegistry) (hlog : ¬ c.AsksLogForZero)
    (hbins : ¬ c.GivesQuantizeBins) : c.restricted.plan schemes = c.plan schemes := by
  unfold plan
  rw [show c.restricted.family = c.family from rfl]
  cases hf : c.family with
  | linear | log | pow | sqrt | time | utc =>
    dsimp only
    rw [continuous_restricted schemes (by rw [hf]; rfl) hlog]
  | symlog => rfl
  | ordinal => exact ordinal_restricted hf
  | point | band =>
    dsimp only
    rw [band_restricted (by rw [hf]; rfl)]
  | binOrdinal =>
    dsimp only
    rw [checkBins_restricted (by rw [hf]; rfl), groupRange_restricted schemes [] (by rw [hf]; rfl),
      numericDomain?_restricted]
  | quantize =>
    have hnone : c.setting .bins = none := by
      rw [← Option.not_isSome_iff_eq_none]
      exact fun hsome => hbins ⟨hf, hsome⟩
    dsimp only
    rw [quantize_restricted schemes hf hnone]
  | quantile =>
    dsimp only
    rw [groupRange_restricted schemes [] (by rw [hf]; rfl), numericDomain?_restricted]
  | threshold =>
    dsimp only
    rw [groupRange_restricted schemes unitRange (by rw [hf]; rfl), numericDomain?_restricted]

/-- The plan of a quantize config with bins. -/
theorem plan_eq_error_of_bins (schemes : SchemeRegistry) (hbins : c.GivesQuantizeBins) :
    ∃ p, c.plan schemes = .error p ∧
      (p = .missingFeature .bins ∨ c.restricted.plan schemes = .error p) := by
  obtain ⟨hf, hsome⟩ := hbins
  obtain ⟨p, hp, hcause⟩ := quantize_eq_error_of_bins schemes hsome
  have hplan : c.plan schemes = .error p := by
    rw [plan_of_quantize schemes hf, hp]
    rfl
  rcases hcause with hmissing | hdomain
  · exact ⟨p, hplan, Or.inl hmissing⟩
  · refine ⟨p, hplan, Or.inr ?_⟩
    rw [plan_of_quantize (c := c.restricted) schemes hf,
      quantize_eq_error_of_domain (c := c.restricted) schemes ((numericDomain?_restricted false).trans hdomain)]
    rfl

/-! ## Sessions -/

/-- An ordinal scale requests its color table by supported settings. -/
theorem requested_restricted (c : CompleteScaleConfig α) (session : Session α) :
    c.restricted.requested session = c.requested session := by
  by_cases hf : c.family = .ordinal
  · unfold requested requestTable sharesColors
    rw [restricted_setting_of_supports (p := .scheme) (by rw [hf]; rfl),
      restricted_setting_of_supports (p := .colorGroup) (by rw [hf]; rfl), setting_range_restricted,
      family_restricted]
  · rw [requested_of_not_sharesColors (not_sharesColors_of_family_ne hf),
      requested_of_not_sharesColors (c := c.restricted) (not_sharesColors_of_family_ne hf)]

/-- **Only supported settings count.** A config and the same config without the settings that its family
does not support become the same scale and leave the same session, or fail with the same problem. A
quantize config with bins is refused instead, for its bins unless its domain has failed before. Log
configs that ask for zero are left out. -/
theorem realize_restricted (session : Session α) (hlog : ¬ c.AsksLogForZero) :
    (¬ c.GivesQuantizeBins →
      c.restricted.realize.run.run session = c.realize.run.run session) ∧
    (c.GivesQuantizeBins → ∃ p, c.realize.run.run session = (.error p, session) ∧
      (p = .missingFeature .bins ∨ c.restricted.realize.run.run session = (.error p, session))) := by
  constructor
  · intro hbins
    exact realize_congr (requested_restricted c session)
      (plan_restricted session.colors.schemes hlog hbins)
  · intro hbins
    obtain ⟨p, hp, hcause⟩ := plan_eq_error_of_bins session.colors.schemes hbins
    have hshares : c.sharesColors = false :=
      not_sharesColors_of_family_ne (by rw [hbins.1]; exact ScaleFamily.noConfusion)
    refine ⟨p, realize_of_error_of_not_sharesColors hshares hp, hcause.imp_right fun h => ?_⟩
    rw [realize_of_error h, requested_restricted, requested_of_not_sharesColors hshares]

/-- A local time config with settings of other families. -/
def timeWithStraySettings : CompleteScaleConfig Float where
  family := .time
  options := ((ScaleOptions.empty.set .zero (some true)).set .padding (some 2)).set .base (some 3)

/-- A time scale is asked for zero, a padding and a base in vain. -/
theorem realize_restricted_time :
    ¬ timeWithStraySettings.AsksLogForZero ∧ ¬ timeWithStraySettings.GivesQuantizeBins ∧
      timeWithStraySettings.restricted.realize.run.run {}
        = timeWithStraySettings.realize.run.run {} := by
  have hlog : ¬ timeWithStraySettings.AsksLogForZero := fun h => nomatch h.1
  have hbins : ¬ timeWithStraySettings.GivesQuantizeBins := fun h => nomatch h.1
  exact ⟨hlog, hbins, (realize_restricted {} hlog).1 hbins⟩

/-- A quantize config with bins. -/
def quantizeWithBins : CompleteScaleConfig Float where
  family := .quantize
  options := ScaleOptions.empty.set .bins (some (.array []))

/-- A log config from 1 to 100 that asks for zero. -/
def logFromZero : CompleteScaleConfig Float where
  family := .log
  options := (ScaleOptions.empty.set .domain (some [.value (.number 1), .value (.number 100)])).set
    .zero (some true)

/-- Settings outside of a family are read after all in two places: a quantize scale is refused for its
bins, and the domain of a log scale is moved to zero. -/
theorem unsupported_settings_read :
    ((quantizeWithBins.realize.run.run {}).1 = .error (.missingFeature .bins) ∧
      ∃ s, (quantizeWithBins.restricted.realize.run.run {}).1 = .ok s) ∧
    ∃ s s', (logFromZero.realize.run.run {}).1 = .ok s ∧
      (logFromZero.restricted.realize.run.run {}).1 = .ok s' ∧
      s.domain {} = [.number 0, .number 100] ∧ s'.domain {} = [.number 1, .number 100] :=
  ⟨⟨rfl, _, rfl⟩, _, _, rfl, rfl, rfl, rfl⟩

end CompleteScaleConfig

end VisualEncoding
