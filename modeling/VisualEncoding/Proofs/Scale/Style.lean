import VisualEncoding.Proofs.Calendar.SpanFaults
import VisualEncoding.Proofs.Scale.Categories
import VisualEncoding.Proofs.Scale.ContinuousEnds
import VisualEncoding.Proofs.Scale.MissingFeature

/-!
# The style of a scale

What a config says beside its domain is its style: what can go wrong there goes wrong with every domain
(`exists_hasStyle`, `hasStyle_withSetting_domain`). A config with a style becomes a scale over every domain
that can be read, unless it is one of time whose ends have no boundaries of the calendar around them
(`plan_of_hasStyle`).
-/

namespace VisualEncoding.CompleteScaleConfig

variable {α : Type} [Scalar α] {c : CompleteScaleConfig α} {schemes : SchemeRegistry}

/-- Everything that a config says beside its domain can be read and is there to be done. -/
def HasStyle (c : CompleteScaleConfig α) (schemes : SchemeRegistry) : Prop :=
  match c.family with
  | .symlog => False
  | .linear | .log | .pow | .sqrt | .time | .utc => ∃ style, c.continuousStyle schemes = .ok style
  | .point | .band => ∃ ends, c.bandEnds = .ok ends
  | .quantize => c.checkBins = .ok () ∧ ∃ count?, c.niceCount? = .ok count?
  | .binOrdinal => c.checkBins = .ok ()
  | .ordinal | .quantile | .threshold => True

/-! ## Configs with a style -/

theorem exists_band_iff {domain? : Option (List (Value α))} (hdomain : c.discreteDomain? = .ok domain?) :
    (∃ s, c.band = .ok s) ↔ ∃ ends, c.bandEnds = .ok ends := by
  unfold band bandStops bandEnds
  rw [hdomain]
  cases c.setting .range with
  | none => cases domain? <;> exact ⟨fun _ => ⟨_, rfl⟩, fun _ => ⟨_, rfl⟩⟩
  | some range =>
    dsimp only
    cases c.rangeEnds range with
    | error p => cases domain? <;> exact ⟨fun ⟨_, h⟩ => (nomatch h), fun ⟨_, h⟩ => (nomatch h)⟩
    | ok ends => cases domain? <;> exact ⟨fun _ => ⟨_, rfl⟩, fun _ => ⟨_, rfl⟩⟩

theorem exists_continuousStyle {s : Continuous α} (h : c.continuous schemes = .ok s)
    (hopen : c.setting .domain = none) : ∃ style, c.continuousStyle schemes = .ok style := by
  rw [continuous_eq (numericDomain?_of_none hopen _) rfl] at h
  obtain ⟨style, hstyle, -⟩ := Outcome.bind_eq_ok_iff.mp h
  exact ⟨style, hstyle⟩

/-- A config that becomes a scale without a domain has a style. -/
theorem hasStyle_of_plan {plan : ScalePlan α} (h : c.plan schemes = .ok plan)
    (hopen : c.setting .domain = none) : c.HasStyle schemes := by
  unfold HasStyle
  cases hf : c.family with
  | symlog =>
    rw [plan_of_symlog _ hf] at h
    nomatch h
  | linear | log | pow | sqrt | time | utc =>
    rw [plan_of_isContinuous _ (by rw [hf]; rfl) (by rw [hf]; nofun)] at h
    obtain ⟨s, hs, -⟩ := Outcome.map_eq_ok_iff.mp h
    exact exists_continuousStyle hs hopen
  | point | band =>
    rw [plan_of_isBanded _ (by rw [hf]; rfl)] at h
    obtain ⟨s, hs, -⟩ := Outcome.map_eq_ok_iff.mp h
    have hdomain : c.discreteDomain? = .ok none := by
      unfold discreteDomain?
      rw [hopen]
    exact (exists_band_iff hdomain).mp ⟨s, hs⟩
  | quantize =>
    rw [plan_of_quantize _ hf] at h
    obtain ⟨s, hs, -⟩ := Outcome.map_eq_ok_iff.mp h
    unfold quantize at hs
    obtain ⟨domain?, -, hs⟩ := Outcome.bind_eq_ok_iff.mp hs
    obtain ⟨u, hbins, hs⟩ := Outcome.bind_eq_ok_iff.mp hs
    obtain ⟨count?, hcount, -⟩ := Outcome.bind_eq_ok_iff.mp hs
    exact ⟨hbins, count?, hcount⟩
  | binOrdinal =>
    unfold CompleteScaleConfig.plan at h
    rw [hf] at h
    obtain ⟨u, hbins, -⟩ := Outcome.bind_eq_ok_iff.mp h
    exact hbins
  | ordinal | quantile | threshold => trivial

/-- The domain is no part of the style. -/
theorem hasStyle_withSetting_domain (h : c.HasStyle schemes) (entries : List (DomainEntry α)) :
    (c.withSetting .domain entries).HasStyle schemes := by
  unfold HasStyle at h ⊢
  rw [family_withSetting, bandEnds_withSetting (by decide), checkBins_withSetting (by decide),
    niceCount?_withSetting (by decide), continuousStyle_withSetting (by decide)]
  exact h

/-! ## Scales of configs with a style -/

/-- The ends of a config of time, over a domain that is read, are to be moved, and there is no boundary below the
lower end or none above the upper one. -/
def LeavesCalendar (c : CompleteScaleConfig α) (fault : Calendar.IntervalFault) : Prop :=
  c.family.isTime = true ∧ ∃ domain? a b count, c.numericDomain? true = .ok domain? ∧
    domain?.elim [0, 1] c.orient = [a, b] ∧ c.niceCount? = .ok (some count) ∧
    Calendar.NoRoundEnds (Calendar.Zone.ofLocal (c.family == .time)) a b count fault

variable [Scalar.CountsExactly α]

/-- The ends of a domain can be moved, unless the calendar has no boundaries around them. -/
theorem movedEnds_cases (c : CompleteScaleConfig α) (a b : α) (count? : Option Nat) :
    (∃ ends, c.movedEnds a b count? = .ok ends) ∨
      ∃ count fault, count? = some count ∧ c.movedEnds a b count? = .error (.calendar fault) ∧
        c.family.isTime = true ∧
        Calendar.NoRoundEnds (Calendar.Zone.ofLocal (c.family == .time)) a b count fault := by
  unfold movedEnds
  cases count? with
  | none => exact Or.inl ⟨_, rfl⟩
  | some count =>
    dsimp only
    cases hnice : c.niceEnds a b count with
    | ok ends => exact Or.inl ⟨_, rfl⟩
    | error fault =>
      refine Or.inr ⟨count, fault, rfl, rfl, ?_⟩
      unfold niceEnds at hnice
      split at hnice
      next htime =>
        exact ⟨htime, (Calendar.niceSpan_error_iff_noRoundEnds (Calendar.Zone.lags_ofLocal _)).mp hnice⟩
      next => split at hnice <;> nomatch hnice

theorem continuous_of_style {style : OutputRange α × Option ColorSpace × Option Nat} {a b : α}
    {domain? : Option (List α)} (hstyle : c.continuousStyle schemes = .ok style)
    (hdomain : c.numericDomain? c.family.isTime = .ok domain?)
    (hends : domain?.elim [0, 1] c.orient = [a, b]) :
    (∃ s, c.continuous schemes = .ok s) ∨
      ∃ fault, c.continuous schemes = .error (.calendar fault) ∧ c.LeavesCalendar fault := by
  obtain ⟨range, space?, count?⟩ := style
  rw [continuous_eq hdomain hends, hstyle]
  rcases c.movedEnds_cases a b count? with ⟨ends, hmoved⟩ | ⟨count, fault, rfl, hmoved, htime, hfault⟩
  · left
    show ∃ s, (c.movedEnds a b count? >>= _) = Except.ok s
    rw [hmoved]
    exact ⟨_, rfl⟩
  · have hcount : c.niceCount? = .ok (some count) := niceCount?_of_continuousStyle hstyle
    rw [htime] at hdomain
    refine Or.inr ⟨fault, ?_, htime, domain?, a, b, count, hdomain, hends, hcount, hfault⟩
    show (c.movedEnds a b (some count) >>= _) = _
    rw [hmoved]
    rfl

/-- A config with a style has a plan over every domain of values that can be read, or the calendar has no
boundaries around its ends. -/
theorem plan_of_hasStyle (h : c.HasStyle schemes)
    (hvalues : ∀ entries, c.setting .domain = some entries →
      ∃ values : List (Value α), entries = values.map .value)
    (hends : c.family ≠ .ordinal → c.family.isBanded = false → ∃ domain? a b,
      c.numericDomain? c.family.isTime = .ok domain? ∧ domain?.elim [0, 1] c.orient = [a, b]) :
    (∃ plan, c.plan schemes = .ok plan) ∨
      ∃ fault, c.plan schemes = .error (.calendar fault) ∧ c.LeavesCalendar fault := by
  have hdiscrete : ∃ domain?, c.discreteDomain? = .ok domain? := by
    unfold discreteDomain?
    cases hset : c.setting .domain with
    | none => exact ⟨_, rfl⟩
    | some entries =>
      obtain ⟨values, rfl⟩ := hvalues entries hset
      have hread : (values.map DomainEntry.value).mapM (valueOfEntry (α := α)) = .ok values := by
        rw [List.mapM_map]
        exact (List.mapM_pure (m := Except (Problem α)) (f := id)).trans
          (congrArg Except.ok (List.map_id values))
      dsimp only
      rw [hread]
      exact ⟨_, rfl⟩
  unfold HasStyle at h
  cases hf : c.family with
  | symlog =>
    rw [hf] at h
    exact h.elim
  | linear | log | pow | sqrt | time | utc =>
    rw [hf] at h
    obtain ⟨style, hstyle⟩ := h
    obtain ⟨domain?, a, b, hdomain, hpair⟩ := hends (by rw [hf]; nofun) (by rw [hf]; rfl)
    rw [plan_of_isContinuous _ (by rw [hf]; rfl) (by rw [hf]; nofun)]
    rcases continuous_of_style hstyle hdomain hpair with ⟨s, hs⟩ | ⟨fault, hfault, hleaves⟩
    · rw [hs]
      exact Or.inl ⟨_, rfl⟩
    · rw [hfault]
      exact Or.inr ⟨fault, rfl, hleaves⟩
  | point | band =>
    rw [hf] at h
    obtain ⟨domain?, hdomain⟩ := hdiscrete
    obtain ⟨s, hs⟩ := (exists_band_iff hdomain).mpr h
    rw [plan_of_isBanded _ (by rw [hf]; rfl), hs]
    exact Or.inl ⟨_, rfl⟩
  | ordinal =>
    obtain ⟨domain?, hdomain⟩ := hdiscrete
    unfold plan ordinal
    rw [hf, hdomain]
    cases c.setting .range <;> exact Or.inl ⟨_, rfl⟩
  | quantize =>
    rw [hf] at h
    obtain ⟨hbins, count?, hcount⟩ := h
    obtain ⟨domain?, a, b, hdomain, -⟩ := hends (by rw [hf]; nofun) (by rw [hf]; rfl)
    rw [hf] at hdomain
    rw [plan_of_quantize _ hf]
    unfold quantize
    rw [show c.numericDomain? false = _ from hdomain, hbins, hcount]
    exact Or.inl ⟨_, rfl⟩
  | binOrdinal =>
    rw [hf] at h
    have hbins : c.checkBins = .ok () := h
    obtain ⟨domain?, a, b, hdomain, -⟩ := hends (by rw [hf]; nofun) (by rw [hf]; rfl)
    rw [hf] at hdomain
    unfold plan
    rw [hf, hbins, show c.numericDomain? false = _ from hdomain]
    exact Or.inl ⟨_, rfl⟩
  | quantile | threshold =>
    obtain ⟨domain?, a, b, hdomain, -⟩ := hends (by rw [hf]; nofun) (by rw [hf]; rfl)
    rw [hf] at hdomain
    unfold plan
    rw [hf, show c.numericDomain? false = _ from hdomain]
    exact Or.inl ⟨_, rfl⟩

end VisualEncoding.CompleteScaleConfig
