import VisualEncoding.Proofs.Scale.Readability
import VisualEncoding.Proofs.Scale.Realization

/-!
# Missing features are refused

Some settings have values that call for something that does not exist (`Setting.missing?`), and a symlog
scale does not exist at all. A config that calls for a missing feature with a setting that its family
supports must not become a scale, and the problem must be that the feature is missing, unless the config
cannot be read in another place (`IsReadable`).

Each reader of such a setting either fails with a missing feature or shows that its setting calls for
nothing. A family refuses the config if it goes through a reader for each of the settings in question.
All families do but one: a threshold scale supports a niced domain and does not look at it.

> `isRefused_iff_of_asksFor`: a config that asks for a missing feature is refused, unless it is a threshold
> config that can be read.
-/

namespace VisualEncoding

/-- What does not exist of what a setting calls for. -/
def Setting.missing? {α : Type} : (p : ScaleProperty) → Setting α p → Option MissingFeature
  | .bins, _ => some .bins
  | .nice, .interval name | .nice, .intervalStep name _ => some (.niceInterval name)
  | .interpolate, .name name => some (.interpolationName name)
  | .interpolate, .params method _ =>
    if Text.lower method ∈ missingMethods then some (.interpolation method) else none
  | _, _ => none

namespace CompleteScaleConfig

variable {α : Type} {c : CompleteScaleConfig α} {p : Problem α}

/-! ## Asking for a missing feature -/

/-- The config asks for something that does not exist, with its family or with a setting that its family
supports. -/
def AsksFor (c : CompleteScaleConfig α) (feature : MissingFeature) : Prop :=
  (c.family = .symlog ∧ feature = .symlog) ∨
    ∃ p v, c.family.supports p = true ∧ c.setting p = some v ∧ Setting.missing? p v = some feature

/-- The setting of a property calls for nothing that is missing. -/
def IsMet (c : CompleteScaleConfig α) (p : ScaleProperty) : Prop :=
  ∀ v, c.setting p = some v → Setting.missing? p v = none

/-- Only three properties have settings that may call for a missing feature. -/
theorem isMet_of_ne {p : ScaleProperty} (hbins : p ≠ .bins) (hnice : p ≠ .nice)
    (hinterpolate : p ≠ .interpolate) : c.IsMet p := by
  intro v _
  cases p with
  | bins => exact absurd rfl hbins
  | nice => exact absurd rfl hnice
  | interpolate => exact absurd rfl hinterpolate
  | _ => rfl

/-- A family that exists is asked for a missing feature with one of three settings. -/
theorem AsksFor.exists_not_isMet {feature : MissingFeature} (h : c.AsksFor feature)
    (hs : c.family ≠ .symlog) :
    ∃ q, c.family.supports q = true ∧ ¬ c.IsMet q ∧ (q = .bins ∨ q = .nice ∨ q = .interpolate) := by
  rcases h with ⟨hf, -⟩ | ⟨q, v, hsupports, hset, hmissing⟩
  · exact absurd hf hs
  · have hq : ¬ c.IsMet q := by
      intro hmet
      rw [hmet v hset] at hmissing
      nomatch hmissing
    refine ⟨q, hsupports, hq, ?_⟩
    by_contra hne
    rw [not_or, not_or] at hne
    exact hq (isMet_of_ne hne.1 hne.2.1 hne.2.2)

/-- Ordinal scales support none of the three. -/
theorem AsksFor.not_sharesColors {feature : MissingFeature} (h : c.AsksFor feature) :
    c.sharesColors = false := by
  refine not_sharesColors_of_family_ne fun hf => ?_
  obtain ⟨q, hsupports, -, hcases⟩ := h.exists_not_isMet (by rw [hf]; exact ScaleFamily.noConfusion)
  rw [hf] at hsupports
  rcases hcases with rfl | rfl | rfl <;> nomatch hsupports

/-- Bins are refused whatever they are. -/
theorem kind_of_checkBins (h : c.checkBins = .error p) : p.kind = .unimplemented := by
  unfold checkBins at h
  split at h
  · cases h
    rfl
  · nomatch h

theorem isMet_of_checkBins {u : Unit} (h : c.checkBins = .ok u) : c.IsMet .bins := by
  intro v hset
  unfold checkBins at h
  rw [hset] at h
  nomatch h

variable [Scalar α] {schemes : SchemeRegistry}

/-! ## Readers of settings that may call for a missing feature -/

/-- The number of ticks is refused only for a missing feature. -/
theorem kind_of_niceCount? (h : c.niceCount? = .error p) : p.kind = .unimplemented := by
  unfold niceCount? at h
  split at h
  · nomatch h
  · nomatch h
  · nomatch h
  · cases h
    rfl
  · cases h
    rfl

theorem isMet_of_niceCount? {count? : Option Nat} (h : c.niceCount? = .ok count?) :
    c.IsMet .nice := by
  intro v hset
  unfold niceCount? at h
  rw [hset] at h
  cases v with
  | flag on => rfl
  | count n => rfl
  | interval name => nomatch h
  | intervalStep name step => nomatch h

/-- A method of blending is refused if it is missing or has no such name. -/
theorem kind_of_spaceOfMethod {method : String} {gamma : Option α}
    (h : spaceOfMethod method gamma = .error p) :
    p.kind = .unimplemented ∨ Text.lower method ∉ blendingMethods ++ missingMethods := by
  unfold spaceOfMethod at h
  split at h
  · nomatch h
  · nomatch h
  · nomatch h
  · nomatch h
  · nomatch h
  · next name hrgb hoklab hlab hhcl hhsl =>
    split at h
    · cases h
      exact Or.inl rfl
    · next hmissing =>
      refine Or.inr ?_
      simp only [Bool.or_eq_true, beq_iff_eq, not_or] at hmissing
      simp only [blendingMethods, missingMethods, List.cons_append, List.nil_append, List.mem_cons,
        List.not_mem_nil, or_false, not_or]
      exact ⟨hrgb, hoklab, hlab, hhcl, hhsl, hmissing.1.1.1, hmissing.1.1.2, hmissing.1.2, hmissing.2⟩

theorem not_mem_missingMethods_of_spaceOfMethod {method : String} {gamma : Option α}
    {space : ColorSpace} (h : spaceOfMethod method gamma = .ok space) :
    Text.lower method ∉ missingMethods := by
  unfold spaceOfMethod at h
  intro hmem
  generalize Text.lower method = name at h hmem
  simp only [missingMethods, List.mem_cons, List.not_mem_nil, or_false] at hmem
  rcases hmem with rfl | rfl | rfl | rfl <;> nomatch h

/-- The space of blending is refused for a missing feature, or for a method that has no such name. -/
theorem kind_of_colorSpace? (hc : c.family.isContinuous = true) (h : c.colorSpace? = .error p) :
    p.kind = .unimplemented ∨ ¬ c.IsReadable schemes := by
  unfold colorSpace? at h
  split at h
  · nomatch h
  · cases h
    exact Or.inl rfl
  · next method gamma hset =>
    refine (kind_of_spaceOfMethod (Outcome.map_eq_error_iff.mp h)).imp_right ?_
    intro hunknown hreadable
    exact hunknown (hreadable.method hc method gamma hset)

theorem isMet_of_colorSpace? {space? : Option ColorSpace} (h : c.colorSpace? = .ok space?) :
    c.IsMet .interpolate := by
  intro v hset
  unfold colorSpace? at h
  rw [hset] at h
  cases v with
  | name method => nomatch h
  | params method gamma =>
    obtain ⟨space, hspace, -⟩ := Outcome.map_eq_ok_iff.mp h
    exact if_neg (not_mem_missingMethods_of_spaceOfMethod hspace)

/-- The settings of a continuous config are all looked at. -/
theorem isMet_of_readers {u : Unit} {space? : Option ColorSpace} {count? : Option Nat}
    (hbins : c.checkBins = .ok u) (hspace : c.colorSpace? = .ok space?)
    (hcount : c.niceCount? = .ok count?) (q : ScaleProperty) : c.IsMet q := by
  cases q with
  | bins => exact isMet_of_checkBins hbins
  | nice => exact isMet_of_niceCount? hcount
  | interpolate => exact isMet_of_colorSpace? hspace
  | _ => exact isMet_of_ne nofun nofun nofun

/-! ## Families -/

/-- A continuous config that calls for a missing feature. Its settings are looked at one after the
other, after domain and range. -/
theorem continuous_eq_error (schemes : SchemeRegistry) (hc : c.family.isContinuous = true)
    {q : ScaleProperty} (hq : ¬ c.IsMet q) :
    ∃ p, c.continuous schemes = .error p ∧ (p.kind = .unimplemented ∨ ¬ c.IsReadable schemes) := by
  unfold continuous
  cases hstops : c.continuousStops schemes with
  | error p =>
    refine ⟨p, rfl, Or.inr ?_⟩
    intro hreadable
    obtain ⟨s, hs⟩ := continuousStops_eq_ok_iff.mpr ⟨hreadable.domain, hreadable.range hc⟩
    exact nomatch hstops.symm.trans hs
  | ok s =>
    cases hbins : c.checkBins with
    | error p => exact ⟨p, rfl, Or.inl (kind_of_checkBins hbins)⟩
    | ok u =>
      cases hspace : c.colorSpace? with
      | error p => exact ⟨p, rfl, kind_of_colorSpace? hc hspace⟩
      | ok space? =>
        cases hcount : c.niceCount? with
        | error p => exact ⟨p, rfl, Or.inl (kind_of_niceCount? hcount)⟩
        | ok count? => exact absurd (isMet_of_readers hbins hspace hcount q) hq

/-- A quantize config with a niced domain that calls for a missing feature. -/
theorem quantize_eq_error (schemes : SchemeRegistry) (hf : c.family = .quantize)
    (hq : ¬ c.IsMet .nice) :
    ∃ p, c.quantize schemes = .error p ∧ (p.kind = .unimplemented ∨ ¬ c.IsReadable schemes) := by
  unfold quantize
  cases hdomain : c.numericDomain? false with
  | error p => exact ⟨p, rfl, Or.inr (not_isReadable_of_numericDomain? (by rw [hf]; rfl) hdomain)⟩
  | ok domain? =>
    cases hbins : c.checkBins with
    | error p => exact ⟨p, rfl, Or.inl (kind_of_checkBins hbins)⟩
    | ok u =>
      cases hcount : c.niceCount? with
      | error p => exact ⟨p, rfl, Or.inl (kind_of_niceCount? hcount)⟩
      | ok count? => exact absurd (isMet_of_niceCount? hcount) hq

/-- A bin config with bins is refused before anything else is looked at. -/
theorem plan_binOrdinal_eq_error (schemes : SchemeRegistry) (hf : c.family = .binOrdinal)
    (hq : ¬ c.IsMet .bins) : ∃ p, c.plan schemes = .error p ∧ p.kind = .unimplemented := by
  unfold plan
  rw [hf]
  cases hbins : c.checkBins with
  | error p => exact ⟨p, rfl, kind_of_checkBins hbins⟩
  | ok u => exact absurd (isMet_of_checkBins hbins) hq

/-- A threshold config fails for its domain only, and only its domain can make it unreadable. -/
theorem plan_threshold_eq_error_iff (hf : c.family = .threshold) :
    (∃ p, c.plan schemes = .error p) ↔ ¬ c.IsReadable schemes := by
  rw [plan_of_threshold schemes hf]
  constructor
  · rintro ⟨p, hp⟩
    exact not_isReadable_of_numericDomain? (by rw [hf]; rfl) (Outcome.map_eq_error_iff.mp hp)
  · intro hunreadable
    cases hdomain : c.numericDomain? false with
    | error p => exact ⟨p, rfl⟩
    | ok domain? =>
      refine absurd ?_ hunreadable
      have hcontinuous : c.family.isContinuous = true → False := by
        rw [hf]
        exact Bool.false_ne_true
      exact {
        domain := numericDomain?_eq_ok_iff.mp ⟨domain?, by rw [hf]; exact hdomain⟩
        range := fun h => (hcontinuous h).elim
        method := fun h => (hcontinuous h).elim }

/-! ## Plans -/

/-- A plan fails if its config asks for a missing feature and is not a threshold config. -/
theorem plan_eq_error_of_asksFor (schemes : SchemeRegistry) {feature : MissingFeature}
    (h : c.AsksFor feature) (ht : c.family ≠ .threshold) :
    ∃ p, c.plan schemes = .error p ∧ (p.kind = .unimplemented ∨ ¬ c.IsReadable schemes) := by
  by_cases hs : c.family = .symlog
  · exact ⟨.missingFeature .symlog, plan_of_symlog schemes hs, Or.inl rfl⟩
  obtain ⟨q, hsupports, hq, hcases⟩ := h.exists_not_isMet hs
  by_cases hc : c.family.isContinuous = true
  · obtain ⟨p, hp, hkind⟩ := continuous_eq_error schemes hc hq
    refine ⟨p, ?_, hkind⟩
    rw [plan_of_isContinuous schemes hc hs, hp]
    rfl
  -- what is left supports bins or a niced domain, not both, and no interpolation
  cases hf : c.family with
  | linear | log | pow | sqrt | symlog | time | utc => rw [hf] at hc; exact absurd rfl hc
  | threshold => exact absurd hf ht
  | ordinal | point | band | quantile =>
    rw [hf] at hsupports
    rcases hcases with rfl | rfl | rfl <;> nomatch hsupports
  | binOrdinal =>
    rw [hf] at hsupports
    rcases hcases with rfl | rfl | rfl
    · obtain ⟨p, hp, hkind⟩ := plan_binOrdinal_eq_error schemes hf hq
      exact ⟨p, hp, Or.inl hkind⟩
    · nomatch hsupports
    · nomatch hsupports
  | quantize =>
    rw [hf] at hsupports
    rcases hcases with rfl | rfl | rfl
    · nomatch hsupports
    · obtain ⟨p, hp, hkind⟩ := quantize_eq_error schemes hf hq
      refine ⟨p, ?_, hkind⟩
      rw [plan_of_quantize schemes hf, hp]
      rfl
    · nomatch hsupports

/-! ## Sessions -/

/-- The config becomes no scale and leaves the session as it was; the problem is a missing feature,
unless the config cannot be read. -/
def IsRefused (c : CompleteScaleConfig α) (session : Session α) : Prop :=
  ∃ p, c.realize.run.run session = (.error p, session) ∧
    (p.kind = .unimplemented ∨ ¬ c.IsReadable session.colors.schemes)

/-- **Missing features are refused.** A config that asks for a missing feature with a setting that its
family supports is refused, unless it is a threshold config that can be read: that one becomes a scale as
if nothing had been asked. -/
theorem isRefused_iff_of_asksFor {feature : MissingFeature} (h : c.AsksFor feature)
    (session : Session α) :
    c.IsRefused session ↔ (c.family = .threshold → ¬ c.IsReadable session.colors.schemes) := by
  by_cases hf : c.family = .threshold
  · constructor
    · rintro ⟨p, hp, -⟩ -
      refine (plan_threshold_eq_error_iff hf).mp ?_
      cases hplan : c.plan session.colors.schemes with
      | error p' => exact ⟨p', rfl⟩
      | ok plan =>
        rw [realize_of_plan hplan] at hp
        nomatch hp
    · intro hunreadable
      obtain ⟨p, hp⟩ := (plan_threshold_eq_error_iff hf).mpr (hunreadable hf)
      exact ⟨p, realize_of_error_of_not_sharesColors h.not_sharesColors hp, Or.inr (hunreadable hf)⟩
  · refine ⟨fun _ hthreshold => absurd hthreshold hf, fun _ => ?_⟩
    obtain ⟨p, hp, hkind⟩ := plan_eq_error_of_asksFor session.colors.schemes h hf
    exact ⟨p, realize_of_error_of_not_sharesColors h.not_sharesColors hp, hkind⟩

/-- A utc config whose ends are to be moved to weeks. -/
def utcByWeek : CompleteScaleConfig Float where
  family := .utc
  options := ScaleOptions.empty.set .nice (some (.interval "week"))

/-- A utc scale is refused for its weeks. -/
theorem utcByWeek_isRefused :
    utcByWeek.AsksFor (.niceInterval "week") ∧ utcByWeek.IsRefused {} := by
  have h : utcByWeek.AsksFor (.niceInterval "week") :=
    Or.inr ⟨.nice, .interval "week", rfl, rfl, rfl⟩
  exact ⟨h, (isRefused_iff_of_asksFor h {}).mpr (fun hf => nomatch hf)⟩

/-- A threshold config that is to be moved to weeks. -/
def thresholdByWeek : CompleteScaleConfig Float where
  family := .threshold
  options := ((ScaleOptions.empty.set .domain
    (some [.value (.number 1), .value (.number 2)])).set .range
    (some [.string "a", .string "b", .string "c"])).set .nice (some (.interval "week"))

/-- A threshold scale is made without its weeks. -/
theorem thresholdByWeek_not_isRefused :
    thresholdByWeek.AsksFor (.niceInterval "week") ∧
      (∃ s session, thresholdByWeek.realize.run.run {} = (.ok s, session)) ∧
      ¬ thresholdByWeek.IsRefused {} := by
  refine ⟨Or.inr ⟨.nice, .interval "week", rfl, rfl, rfl⟩, ⟨_, _, rfl⟩, ?_⟩
  rintro ⟨p, hp, -⟩
  nomatch hp

end CompleteScaleConfig

end VisualEncoding
