import VisualEncoding.Proofs.Channel.Encoders
import VisualEncoding.Proofs.Channel.Observed
import VisualEncoding.Proofs.Scale.Completion
import VisualEncoding.Proofs.Scale.Coverage

/-!
# Fitting covers the data

In exact arithmetic the scale of an encoder that is fitted to a dataset covers the dataset, so that clamping it
makes no difference:

> `ofDef_fit_covers`: every number that the rows show lies between the ends of the fitted domain, and every row is
> encoded in the same way with clamping switched on or off.

The numbers have to be finite. Instants have to lie near the present, and in the order of their milliseconds. The
latter holds unless there are leap seconds: a leap second is before the instants that follow it and has more
milliseconds than these, so that it lies beyond the end of a domain that ends with one of them
(`fit_leapSecond`).
-/

namespace VisualEncoding

open Extended (finite)

/-! ## Instants near the present -/

namespace Calendar

/-- An instant in the years from -9999 to 9999. Its fraction is that of a second, or of a leap second. -/
structure Instant.IsCommon (t : Instant) : Prop where
  le_year : -9999 ≤ t.clock.date.year
  year_le : t.clock.date.year ≤ 9999
  nano_lt : t.nano < 2 * nanosPerSecond

theorem Instant.IsCommon.isNear {t : Instant} (h : t.IsCommon) : IsNear t.millis := by
  have hlo := h.le_year
  have hhi := h.year_le
  have hnano := h.nano_lt
  obtain ⟨hbefore, hafter⟩ := (Date.isDay_ofDays (t.second / (secondsPerDay : ℕ))).days_bounds
  have hclock : t.clock.date = Date.ofDays (t.second / (secondsPerDay : ℕ)) := rfl
  rw [hclock] at hlo hhi
  rw [Date.days_ofDays] at hbefore hafter
  generalize (Date.ofDays (t.second / (secondsPerDay : ℕ))).year = year at hlo hhi hbefore hafter
  unfold daysBeforeYear epochDays secondsPerDay at hbefore hafter
  unfold nanosPerSecond at hnano
  dsimp only at hbefore hafter
  constructor
  · unfold Instant.millis nanosPerMilli
    omega
  · unfold Instant.millis nanosPerMilli
    omega

/-- Without leap seconds instants are in the order of their milliseconds. -/
theorem Instant.millis_le_of_before {t t' : Instant} (h : t.before t' = true) (hnano : t.nano < nanosPerSecond) :
    t.millis ≤ t'.millis := by
  have horder := of_decide_eq_true h
  unfold nanosPerSecond at hnano
  unfold Instant.millis nanosPerMilli
  omega

end Calendar

/-! ## Definitions that differ in clamping -/

namespace FieldDef

variable {α : Type} {d : FieldDef α} {role : ChannelRole} {isLocal : Bool} {c : CompleteScaleConfig α}

/-- The definition with clamping switched on or off. -/
def withClamp (d : FieldDef α) (on : Bool) : FieldDef α :=
  { d with scale := some (.ofOption ((Configurable.orDefault d.scale).map fun config =>
      { config with options := config.options.set .clamp (some on) })) }

theorem completeScale_withClamp (h : d.completeScale role isLocal = some c)
    (hcontinuous : c.family.isContinuous = true) (on : Bool) :
    (d.withClamp on).completeScale role isLocal = some (c.withSetting .clamp on) := by
  obtain ⟨config, hconfig, h⟩ := Option.bind_eq_some_iff.mp h
  obtain ⟨family, hfamily, h⟩ := Option.bind_eq_some_iff.mp h
  cases h
  have hconfig' : Configurable.orDefault (d.withClamp on).scale
      = some { config with options := config.options.set .clamp (some on) } := by
    unfold withClamp
    rw [hconfig]
    rfl
  have hoptions : (config.options.set .clamp (some on)).completed family
      = (config.options.completed family).set .clamp (some on) := by
    refine ScaleOptions.ext_setting fun p => ?_
    rw [ScaleOptions.completed_setting]
    by_cases hp : p = .clamp
    · subst hp
      have hsupports : family.supports .clamp = true := hcontinuous
      rw [ScaleOptions.setting_set_self, ScaleOptions.setting_set_self, ScaleOptions.settledSetting,
        if_pos hsupports]
      rfl
    · rw [ScaleOptions.setting_set_of_ne _ hp, ScaleOptions.setting_set_of_ne _ hp, ScaleOptions.completed_setting]
  unfold completeScale
  rw [hconfig']
  show (config.family.or _).bind _ = _
  rw [show config.family.or (ScaleFamily.infer? role (d.withClamp on).type (d.withClamp on).bin isLocal)
    = some family from hfamily]
  show some (CompleteScaleConfig.mk family ((config.options.set .clamp (some on)).completed family)) = _
  rw [hoptions]
  rfl

end FieldDef

/-! ## What a field shows -/

namespace Value

theorem place?_number (x : ℝ) : (Value.number (finite x)).place? false = some (finite x) := by
  unfold place?
  rw [if_neg Bool.false_ne_true]
  exact toNumber?_number (Extended.isNaN_finite (x := x))

/-- Near the present whole numbers stand for instants. -/
theorem place?_number_of_isNear {n : ℤ} (h : Calendar.IsNear n) :
    (Value.number (finite (n : ℝ))).place? true = some (finite (n : ℝ)) := by
  have hle := h.le
  have hge := h.ge
  obtain ⟨t, ht, -, -, -⟩ := Calendar.exists_clock_of_near n (by omega) hge
  have hmillis : t.millis = n := by
    unfold Calendar.Instant.ofMillis? at ht
    obtain ⟨-, ht⟩ := Option.ite_none_right_eq_some.mp ht
    cases ht
    unfold Calendar.Instant.millis Calendar.nanosPerMilli
    dsimp only
    omega
  have hinstant : (Value.number (finite (n : ℝ))).toInstant? = some t :=
    Calendar.instantOf?_ofInt (abs_le.mpr ⟨by omega, by omega⟩) ht
  unfold place?
  rw [if_pos rfl, hinstant, Option.map_some, hmillis]
  rfl

end Value

/-- The places of two ends, what lies between them, and where a config may move them. -/
structure CompleteScaleConfig.Spans (c : CompleteScaleConfig Extended) (lo hi : ℝ) (values : List (Value Extended)) :
    Prop where
  between : ∀ v ∈ values, ∀ z, v.place? c.family.isTime = some z → ∃ x, z = finite x ∧ lo ≤ x ∧ x ≤ hi
  outward : ∀ count?, c.niceCount? = .ok count? → ∀ a b, (a = lo ∧ b = hi ∨ a = hi ∧ b = lo) →
    ∃ a' b', c.movedEnds (finite a) (finite b) count? = .ok (finite a', finite b') ∧ Ticks.Widens a b a' b'

namespace FieldDef

variable {d : FieldDef Extended} {role : ChannelRole} {isLocal : Bool} {c : CompleteScaleConfig Extended}
  {dataset : List (Datum Extended)}

/-- What the field shows in a dataset can be measured by a scale: finite numbers, or instants near the present in
the order of their milliseconds. -/
inductive IsMeasuredBy (d : FieldDef Extended) (c : CompleteScaleConfig Extended)
    (dataset : List (Datum Extended)) : Prop where
  | numbers (type_eq : d.type = .quantitative) (family : c.MeasuresNumbers)
      (isFinite : ∀ x ∈ d.numbers dataset, Scalar.isFinite x = true)
  | instants (type_eq : d.type = .temporal) (family : c.family = .utc)
      (isCommon : ∀ t ∈ d.instants dataset, t.IsCommon)
      (ordered : ∀ t ∈ d.instants dataset, ∀ t' ∈ d.instants dataset, t.before t' = true → t.millis ≤ t'.millis)

/-- Instants near the present are measured by a scale of universal time if there are no leap seconds among them. -/
theorem isMeasuredBy_of_no_leapSecond (htype : d.type = .temporal) (hfamily : c.family = .utc)
    (hcommon : ∀ t ∈ d.instants dataset, t.IsCommon)
    (hnano : ∀ t ∈ d.instants dataset, t.nano < Calendar.nanosPerSecond) : d.IsMeasuredBy c dataset := by
  refine .instants htype hfamily hcommon ?_
  intro t ht t' _ h
  exact Calendar.Instant.millis_le_of_before h (hnano t ht)

theorem IsMeasuredBy.isContinuous (h : d.IsMeasuredBy c dataset) :
    c.family.isContinuous = true ∧ c.family ≠ .symlog := by
  rcases h with ⟨-, hfamily, -⟩ | ⟨-, hfamily, -, -⟩
  · rcases hfamily with hf | hf | ⟨hf, -⟩ <;> rw [hf] <;> exact ⟨rfl, nofun⟩
  · rw [hfamily]
    exact ⟨rfl, nofun⟩

theorem IsMeasuredBy.keepsOrder (h : d.IsMeasuredBy c dataset) : c.transform.KeepsOrder := by
  rcases h with ⟨-, hfamily, -⟩ | ⟨-, hfamily, -, -⟩
  · exact hfamily.keepsOrder
  · unfold CompleteScaleConfig.transform
    rw [hfamily]
    trivial

theorem mem_numbers {datum : Datum Extended} {z : Extended} (hdatum : datum ∈ dataset)
    (hz : (datum.get d.field).place? false = some z) : z ∈ d.numbers dataset :=
  List.mem_filterMap.mpr ⟨datum, hdatum, hz⟩

theorem exists_instant {datum : Datum Extended} {z : Extended} (hdatum : datum ∈ dataset)
    (hz : (datum.get d.field).place? true = some z) : ∃ t ∈ d.instants dataset, z = finite (t.millis : ℝ) := by
  obtain ⟨t, ht, rfl⟩ := Option.map_eq_some_iff.mp hz
  exact ⟨t, List.mem_filterMap.mpr ⟨datum, hdatum, ht⟩, rfl⟩

/-- Finite numbers lie between the least and the greatest of them. -/
theorem numbers_between {lo hi : Extended} (hfinite : ∀ x ∈ d.numbers dataset, Scalar.isFinite x = true)
    (hextent : Order.extent? (fun x y => decide (x < y)) (d.numbers dataset) = some (lo, hi)) :
    ∃ r r', lo = finite r ∧ hi = finite r' ∧ ∀ z ∈ d.numbers dataset, ∃ x, z = finite x ∧ r ≤ x ∧ x ≤ r' := by
  have hkey : ∀ x ∈ d.numbers dataset, ∀ y ∈ d.numbers dataset,
      decide (x < y) = decide (x.place?.getD 0 < y.place?.getD 0) := by
    intro x hx y hy
    obtain ⟨r, rfl⟩ := Extended.isFinite_iff.mp (hfinite x hx)
    obtain ⟨r', rfl⟩ := Extended.isFinite_iff.mp (hfinite y hy)
    exact decide_eq_decide.mpr (Extended.finite_lt.trans EReal.coe_lt_coe_iff.symm)
  have hspan := Order.extent?_spans hkey hextent
  obtain ⟨hlo, hhi⟩ := Order.mem_of_extent? hextent
  obtain ⟨r, rfl⟩ := Extended.isFinite_iff.mp (hfinite lo hlo)
  obtain ⟨r', rfl⟩ := Extended.isFinite_iff.mp (hfinite hi hhi)
  refine ⟨r, r', rfl, rfl, ?_⟩
  intro z hz
  obtain ⟨x, rfl⟩ := Extended.isFinite_iff.mp (hfinite z hz)
  obtain ⟨hle, hge⟩ := hspan _ hz
  exact ⟨x, rfl, EReal.coe_le_coe_iff.mp hle, EReal.coe_le_coe_iff.mp hge⟩

/-- Instants in the order of their milliseconds lie, by these, between the first and the last of them. -/
theorem instants_between {lo hi : Calendar.Instant}
    (hordered : ∀ t ∈ d.instants dataset, ∀ t' ∈ d.instants dataset, t.before t' = true → t.millis ≤ t'.millis)
    (hextent : Order.extent? Calendar.Instant.before (d.instants dataset) = some (lo, hi)) :
    ∀ t ∈ d.instants dataset, lo.millis ≤ t.millis ∧ t.millis ≤ hi.millis := by
  have hkey : ∀ t ∈ d.instants dataset, ∀ t' ∈ d.instants dataset,
      t.before t' = decide (toLex (t.second, t.nano) < toLex (t'.second, t'.nano)) :=
    fun t _ t' _ => Calendar.Instant.before_eq t t'
  have hmillis : ∀ t ∈ d.instants dataset, ∀ t' ∈ d.instants dataset,
      toLex (t.second, t.nano) ≤ toLex (t'.second, t'.nano) → t.millis ≤ t'.millis := by
    intro t ht t' ht' hle
    rcases hle.lt_or_eq with hlt | heq
    · refine hordered t ht t' ht' ?_
      rw [hkey t ht t' ht']
      exact decide_eq_true hlt
    · obtain ⟨hsecond, hnano⟩ := Prod.mk.inj (toLex.injective heq)
      unfold Calendar.Instant.millis
      rw [hsecond, hnano]
  obtain ⟨hlo, hhi⟩ := Order.mem_of_extent? hextent
  intro t ht
  obtain ⟨hle, hge⟩ := Order.extent?_spans hkey hextent t ht
  exact ⟨hmillis lo hlo t ht hle, hmillis t ht hi hhi hge⟩

/-- The ends of the numbers that a field shows. -/
theorem observed_numbers (htype : d.type = .quantitative) (hfamily : c.MeasuresNumbers)
    (hfinite : ∀ x ∈ d.numbers dataset, Scalar.isFinite x = true) :
    ∃ u v lo hi, CompleteChannelDef.observedDomain (.field (d.complete role isLocal)) dataset = [u, v] ∧
      u.place? c.family.isTime = some (finite lo) ∧ v.place? c.family.isTime = some (finite hi) ∧
      c.Spans lo hi (dataset.map fun datum => datum.get d.field) := by
  have hspans : ∀ lo hi : ℝ, (∀ z ∈ d.numbers dataset, ∃ x, z = finite x ∧ lo ≤ x ∧ x ≤ hi) →
      c.Spans lo hi (dataset.map fun datum => datum.get d.field) := by
    intro lo hi hbetween
    refine ⟨?_, fun count? _ a b _ => hfamily.movedEnds_widens a b count?⟩
    intro v hv z hz
    obtain ⟨datum, hdatum, rfl⟩ := List.mem_map.mp hv
    rw [hfamily.isTime] at hz
    exact hbetween z (mem_numbers hdatum hz)
  rw [observedDomain_of_quantitative htype, hfamily.isTime]
  cases hextent : Order.extent? (fun x y => decide (x < y)) (d.numbers dataset) with
  | none =>
    refine ⟨.number (finite 0), .number (finite 1), 0, 1, ?_, Value.place?_number 0, Value.place?_number 1, ?_⟩
    · rw [← Extended.zero_eq, ← Extended.one_eq]
      rfl
    · refine hspans 0 1 fun z hz => ?_
      rw [Order.extent?_eq_none_iff.mp hextent] at hz
      nomatch hz
  | some ends =>
    obtain ⟨r, r', hlo, hhi, hbetween⟩ := numbers_between hfinite hextent
    refine ⟨_, _, r, r', rfl, ?_, ?_, hspans r r' hbetween⟩
    · rw [hlo]
      exact Value.place?_number r
    · rw [hhi]
      exact Value.place?_number r'

/-- The ends of the instants that a field shows. -/
theorem observed_instants (htype : d.type = .temporal) (hfamily : c.family = .utc)
    (hcommon : ∀ t ∈ d.instants dataset, t.IsCommon)
    (hordered : ∀ t ∈ d.instants dataset, ∀ t' ∈ d.instants dataset, t.before t' = true → t.millis ≤ t'.millis) :
    ∃ u v lo hi, CompleteChannelDef.observedDomain (.field (d.complete role isLocal)) dataset = [u, v] ∧
      u.place? c.family.isTime = some (finite lo) ∧ v.place? c.family.isTime = some (finite hi) ∧
      c.Spans lo hi (dataset.map fun datum => datum.get d.field) := by
  have htime : c.family.isTime = true := by
    rw [hfamily]
    rfl
  have hspans : ∀ m n : ℤ, Calendar.IsNear m → Calendar.IsNear n →
      (∀ t ∈ d.instants dataset, m ≤ t.millis ∧ t.millis ≤ n) →
      c.Spans m n (dataset.map fun datum => datum.get d.field) := by
    intro m n hm hn hbetween
    constructor
    · intro v hv z hz
      obtain ⟨datum, hdatum, rfl⟩ := List.mem_map.mp hv
      rw [htime] at hz
      obtain ⟨t, ht, rfl⟩ := exists_instant hdatum hz
      obtain ⟨hle, hge⟩ := hbetween t ht
      exact ⟨t.millis, rfl, by exact_mod_cast hle, by exact_mod_cast hge⟩
    · rintro count? hcount a b (⟨rfl, rfl⟩ | ⟨rfl, rfl⟩)
      · exact CompleteScaleConfig.movedEnds_widens_of_utc hfamily hm hn hcount
      · exact CompleteScaleConfig.movedEnds_widens_of_utc hfamily hn hm hcount
  rw [observedDomain_of_temporal htype, htime]
  cases hextent : Order.extent? Calendar.Instant.before (d.instants dataset) with
  | none =>
    have hzero : Calendar.IsNear 0 := ⟨by decide, by decide⟩
    have hone : Calendar.IsNear 1 := ⟨by decide, by decide⟩
    refine ⟨_, _, ((0 : ℤ) : ℝ), ((1 : ℤ) : ℝ), rfl, Value.place?_number_of_isNear hzero,
      Value.place?_number_of_isNear hone, hspans 0 1 hzero hone fun t ht => ?_⟩
    rw [Order.extent?_eq_none_iff.mp hextent] at ht
    nomatch ht
  | some ends =>
    obtain ⟨lo, hi⟩ := ends
    obtain ⟨hlo, hhi⟩ := Order.mem_of_extent? hextent
    exact ⟨_, _, (lo.millis : ℝ), (hi.millis : ℝ), rfl, rfl, rfl,
      hspans lo.millis hi.millis (hcommon lo hlo).isNear (hcommon hi hhi).isNear (instants_between hordered hextent)⟩

theorem IsMeasuredBy.observed (h : d.IsMeasuredBy c dataset) (role : ChannelRole) (isLocal : Bool) :
    ∃ u v lo hi, CompleteChannelDef.observedDomain (.field (d.complete role isLocal)) dataset = [u, v] ∧
      u.place? c.family.isTime = some (finite lo) ∧ v.place? c.family.isTime = some (finite hi) ∧
      c.Spans lo hi (dataset.map fun datum => datum.get d.field) := by
  rcases h with ⟨htype, hfamily, hfinite⟩ | ⟨htype, hfamily, hcommon, hordered⟩
  · exact observed_numbers htype hfamily hfinite
  · exact observed_instants htype hfamily hcommon hordered

end FieldDef

/-! ## Fitted scales -/

namespace CompleteScaleConfig

variable {c : CompleteScaleConfig Extended} {schemes : SchemeRegistry} {lo hi : ℝ} {values : List (Value Extended)}
  {u v : Value Extended}

/-- Over ends that span some values a config becomes a scale whose domain has them between its ends. -/
theorem Spans.continuous (hspans : c.Spans lo hi values) (hu : u.place? c.family.isTime = some (finite lo))
    (hv : v.place? c.family.isTime = some (finite hi)) {style : OutputRange Extended × Option ColorSpace × Option Nat}
    (hstyle : c.continuousStyle schemes = .ok style) :
    ∃ s a b, (c.withDomain [u, v]).continuous schemes = .ok s ∧ s.domain = [finite a, finite b] ∧
      s.family = c.family ∧ s.transform = c.transform ∧
      ∀ value ∈ values, ∀ z, s.ofValue? value = some z →
        ∃ x, z = finite x ∧ (a ≤ x ∧ x ≤ b ∨ b ≤ x ∧ x ≤ a) := by
  obtain ⟨range, space?, count?⟩ := style
  have hcount : c.niceCount? = .ok count? := niceCount?_of_continuousStyle hstyle
  have horient : ∃ a b, (c.withDomain [u, v]).orient [finite lo, finite hi] = [finite a, finite b] ∧
      (a = lo ∧ b = hi ∨ a = hi ∧ b = lo) := by
    rw [orient_pair]
    split
    · exact ⟨hi, lo, rfl, Or.inr ⟨rfl, rfl⟩⟩
    · exact ⟨lo, hi, rfl, Or.inl ⟨rfl, rfl⟩⟩
  obtain ⟨a, b, hpair, hends⟩ := horient
  obtain ⟨a', b', hmoved, hwidens⟩ := hspans.outward count? hcount a b hends
  have hstyle' : (c.withDomain [u, v]).continuousStyle schemes = .ok (range, space?, count?) := by
    rw [withDomain_eq, continuousStyle_withSetting (by decide), hstyle]
  have hmoved' : (c.withDomain [u, v]).movedEnds (finite a) (finite b) count? = .ok (finite a', finite b') := by
    rw [withDomain_eq, movedEnds_withSetting (by decide) (by decide) (by decide), hmoved]
  have htransform : (c.withDomain [u, v]).transform = c.transform :=
    transform_withSetting (p := .domain) (by decide) (by decide) _
  have hread : (c.withDomain [u, v]).continuous schemes = _ :=
    continuous_eq (numericDomain?_withDomain (c := c) hu hv) hpair
  rw [hstyle'] at hread
  simp only [bind, Except.bind, hmoved'] at hread
  refine ⟨_, a', b', hread, rfl, rfl, htransform, ?_⟩
  intro value hvalue z hz
  obtain ⟨x, rfl, hlo, hhi⟩ := hspans.between value hvalue z hz
  refine ⟨x, rfl, ?_⟩
  rcases hends with ⟨rfl, rfl⟩ | ⟨rfl, rfl⟩
  · rcases hwidens with ⟨-, ha, hb⟩ | ⟨hba, hb, ha⟩
    · exact Or.inl ⟨by linarith, by linarith⟩
    · exact Or.inr ⟨by linarith, by linarith⟩
  · rcases hwidens with ⟨hab, ha, hb⟩ | ⟨-, hb, ha⟩
    · exact Or.inl ⟨by linarith, by linarith⟩
    · exact Or.inr ⟨by linarith, by linarith⟩

end CompleteScaleConfig

namespace ChannelEncoder

/-- **Fitting covers the data.** Let an encoder be made of a field whose scale has an open domain, and let what the
field shows in a dataset be measured by that scale. Then the encoder is fitted to the dataset in every session with
the same schemes, every number that the rows show lies between the ends of the fitted domain, and the encoders of
the definition with clamping switched on and off show every row as it does. -/
theorem ofDef_fit_covers {d : FieldDef Extended} {role : ChannelRole} {isLocal : Bool}
    {c : CompleteScaleConfig Extended} {dataset : List (Datum Extended)} {name : String}
    {session after later : Session Extended} {e : ChannelEncoder Extended}
    (hscale : d.completeScale role isLocal = some c) (hopen : c.isOpen = true)
    (hmeasured : d.IsMeasuredBy c dataset)
    (he : (ofDef name role (.field d) isLocal).run.run session = (.ok e, after))
    (hlater : later.colors.schemes = session.colors.schemes) :
    ∃ e' s a b, (e.fit dataset).run.run later = (.ok e', later) ∧ e'.scale = some (.continuous s) ∧
      s.family = c.family ∧ s.domain = [a, b] ∧
      (∀ datum ∈ dataset, ∀ x, s.ofValue? (datum.get d.field) = some x → a ≤ x ∧ x ≤ b ∨ b ≤ x ∧ x ≤ a) ∧
      ∀ on : Bool, ∃ o o', (ofDef name role (.field (d.withClamp on)) isLocal).run.run session = (.ok o, session) ∧
        (o.fit dataset).run.run later = (.ok o', later) ∧ o'.scale = some (.continuous (s.withClamp on)) ∧
        ∀ datum ∈ dataset, ∀ fallback, o'.encodeDatum datum fallback = e'.encodeDatum datum fallback := by
  obtain ⟨hf, hs⟩ := hmeasured.isContinuous
  have hunset : c.setting .domain = none := CompleteScaleConfig.isOpen_iff.mp hopen
  -- the scale of the definition itself, and with it its style
  obtain ⟨plan, hplan⟩ := (exists_ofComplete_iff (d := .field (d.complete role isLocal)) hscale).mp ⟨e, after, he⟩
  rw [CompleteScaleConfig.plan_of_isContinuous _ hf hs] at hplan
  obtain ⟨s₀, hs₀, -⟩ := Outcome.map_eq_ok_iff.mp hplan
  obtain ⟨style, hstyle⟩ := CompleteScaleConfig.exists_continuousStyle hs₀ hunset
  -- the scale over the observed ends
  obtain ⟨u, v, lo, hi, hobserved, hu, hv, hspans⟩ := hmeasured.observed role isLocal
  obtain ⟨s, a, b, hcontinuous, hdomain, hfamily, htransform, hcovers⟩ := hspans.continuous hu hv hstyle
  have hread : ∀ datum ∈ dataset, ∀ z, s.ofValue? (datum.get d.field) = some z →
      ∃ x, z = finite x ∧ (a ≤ x ∧ x ≤ b ∨ b ≤ x ∧ x ≤ a) :=
    fun datum hdatum => hcovers _ (List.mem_map_of_mem hdatum)
  obtain ⟨e₁, e', hmade, hfit, hscale', hvalue⟩ := ofDef_fit_of_continuous (d := d) hscale hopen hf hs hs₀
    (by rw [hobserved, hlater]; exact hcontinuous) name
  obtain rfl : e₁ = e := Except.ok.inj (congrArg Prod.fst (hmade.symm.trans he))
  refine ⟨e', s, finite a, finite b, hfit, hscale', hfamily, hdomain, ?_, ?_⟩
  · intro datum hdatum x hx
    obtain ⟨r, rfl, hr⟩ := hread datum hdatum x hx
    simpa only [Extended.finite_le] using hr
  · intro on
    have hopenOn : (c.withSetting .clamp on).isOpen = true := by
      rw [CompleteScaleConfig.isOpen_iff, CompleteScaleConfig.setting_withSetting_of_ne (by decide)]
      exact hunset
    have hmadeOn : (c.withSetting .clamp on).continuous session.colors.schemes = .ok (s₀.withClamp on) := by
      rw [CompleteScaleConfig.continuous_withSetting_clamp (CompleteScaleConfig.numericDomain?_of_none hunset _) rfl,
        hs₀]
      rfl
    have hcontinuousOn : ((c.withSetting .clamp on).withDomain [u, v]).continuous session.colors.schemes
        = .ok (s.withClamp on) := by
      obtain ⟨x, y, hxy⟩ := c.exists_orient_pair (finite lo) (finite hi)
      rw [CompleteScaleConfig.withDomain_eq, CompleteScaleConfig.withSetting_comm (by decide),
        ← CompleteScaleConfig.withDomain_eq,
        CompleteScaleConfig.continuous_withSetting_clamp (CompleteScaleConfig.numericDomain?_withDomain hu hv) hxy,
        hcontinuous]
      rfl
    have hobservedOn : CompleteChannelDef.observedDomain (.field ((d.withClamp on).complete role isLocal)) dataset
        = [u, v] := hobserved
    obtain ⟨o, o', hmadeOn, hfitOn, hscaleOn, hvalueOn⟩ := ofDef_fit_of_continuous
      (FieldDef.completeScale_withClamp hscale hf on) hopenOn hf hs hmadeOn
      (by rw [hobservedOn, hlater]; exact hcontinuousOn) name
    refine ⟨o, o', hmadeOn, hfitOn, hscaleOn, ?_⟩
    intro datum hdatum fallback
    refine encodeDatum_congr (hvalueOn datum) (hvalue datum) ?_ fallback
    rw [encodeValue_of_continuous hscaleOn, encodeValue_of_continuous hscale']
    have horder : s.transform.KeepsOrder := htransform ▸ hmeasured.keepsOrder
    exact congrArg pure (Continuous.apply_withClamp hdomain horder (hread datum hdatum))

/-- Two numbers lie in the domain that is fitted to them with all defaults. -/
theorem ofDef_fit_covers_numbers :
    ∃ e e' s a b,
      (ofDef "x" .x (.field { field := "v", type := .quantitative }) false).run.run {} = (.ok e, {}) ∧
      (e.fit [[("v", .number (finite 3))], [("v", .number (finite 1))]]).run.run {} = (.ok e', {}) ∧
      e'.scale = some (.continuous s) ∧ s.domain = [a, b] ∧
      ∀ x ∈ [finite 3, finite 1], a ≤ x ∧ x ≤ b ∨ b ≤ x ∧ x ≤ a := by
  let d : FieldDef Extended := { field := "v", type := .quantitative }
  let rows : List (Datum Extended) := [[("v", .number (finite 3))], [("v", .number (finite 1))]]
  have hnumber : ∀ x : ℝ, (Value.number (finite x)).toNumber? = some (finite x) :=
    fun x => Value.toNumber?_number (Extended.isNaN_finite (x := x))
  have hmeasured : d.IsMeasuredBy { family := .linear, options := ScaleOptions.empty.completed .linear } rows := by
    refine .numbers rfl (Or.inl rfl) fun x hx => ?_
    obtain ⟨datum, hdatum, hx⟩ := List.mem_filterMap.mp hx
    simp only [rows, List.mem_cons, List.not_mem_nil, or_false] at hdatum
    rcases hdatum with rfl | rfl
    · cases (hnumber 3).symm.trans hx
      rfl
    · cases (hnumber 1).symm.trans hx
      rfl
  have hmade : ∃ e, (ofDef (α := Extended) "x" .x (.field { field := "v", type := .quantitative }) false).run.run {}
      = (.ok e, {}) := ⟨_, rfl⟩
  have hschemes : ({} : Session Extended).colors.schemes = ({} : Session Extended).colors.schemes := rfl
  obtain ⟨e, he⟩ := hmade
  obtain ⟨e', s, a, b, hfit, hscale, hfamily, hdomain, hcovers, -⟩ :=
    ofDef_fit_covers (by rfl) (by rfl) hmeasured he hschemes
  refine ⟨e, e', s, a, b, he, hfit, hscale, hdomain, ?_⟩
  intro x hx
  have hread : s.ofValue? (.number x) = (Value.number x).toNumber? := by
    unfold Continuous.ofValue?
    rw [hfamily]
    rfl
  simp only [List.mem_cons, List.not_mem_nil, or_false] at hx
  rcases hx with rfl | rfl
  · exact hcovers _ List.mem_cons_self _ (hread.trans (hnumber 3))
  · exact hcovers _ (List.mem_cons_of_mem _ List.mem_cons_self) _ (hread.trans (hnumber 1))

/-- An instant at the end of 2016, the middle of the leap second of that year, and the start of 2017. -/
def secondsOfNewYear : List (Datum Extended) :=
  [[("t", .string "2016-12-31T23:59:50Z")], [("t", .string "2016-12-31T23:59:60.5Z")],
   [("t", .string "2017-01-01T00:00:00Z")]]

/-- A leap second lies beyond the end of a domain that ends with the instant after it. -/
theorem fit_leapSecond :
    ∃ e e' s,
      (ofDef "x" .x (.field { field := "t", type := .temporal, scale := some (.enabled
        { options := ScaleOptions.empty.set .nice (some (.flag false)) }) }) false).run.run {} = (.ok e, {}) ∧
      (e.fit secondsOfNewYear).run.run {} = (.ok e', {}) ∧ e'.scale = some (.continuous s) ∧
      ∃ datum ∈ secondsOfNewYear, ∃ x, s.ofValue? (datum.get "t") = some x ∧
        ∀ a b, s.domain = [a, b] → ¬ (a ≤ x ∧ x ≤ b ∨ b ≤ x ∧ x ≤ a) := by
  refine ⟨_, _, _, rfl, rfl, rfl, _, List.mem_cons_of_mem _ List.mem_cons_self, finite (1483228800500 : ℤ), rfl, ?_⟩
  intro a b hdomain
  have hends : [finite (1483228790000 : ℤ), finite (1483228800000 : ℤ)] = [a, b] := hdomain
  cases hends
  simp only [Extended.finite_le]
  norm_num

end ChannelEncoder

end VisualEncoding
