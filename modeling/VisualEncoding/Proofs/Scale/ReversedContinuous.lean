import VisualEncoding.Proofs.Calendar.Intervals
import VisualEncoding.Proofs.Scale.ContinuousEnds
import VisualEncoding.Proofs.Scale.Mirror
import VisualEncoding.Proofs.Scale.Realization
import VisualEncoding.Proofs.Ticks.Outward
import VisualEncoding.Proofs.Value.Numbers

/-!
# Continuous scales, reversed

A continuous config is reversed by its domain if it has one, else by its range. In exact arithmetic the scale
that comes of it is the mirror image of the one that is not reversed, through nicing, zero and clamping, which
find the direction again in the order of the ends (`movedEnds_swap`):

> `realize_mirrored`: for every value both scales give nothing, or numbers that sum up to the ends of the
> range, unless the ends of the domain are one.

If they are one there is no order to find the direction in. As long as they stay one, every value lies halfway
and the two scales agree with their mirror image. But zero, and the powers to which a log domain is niced, are
taken in as for an ascending domain whatever the direction; then the config is not reversed at all
(`not_mirrored_of_equal_ends`).
-/

namespace VisualEncoding

open Extended (finite)

/-! ## Moving ends from both sides -/

namespace Extended

variable {a b : Extended}

theorem least_comm_of_lt (h : a < b) : Scalar.least b a = Scalar.least a b := by
  obtain ⟨ha, hb⟩ := isNaN_of_lt h
  unfold Scalar.least
  rw [ha, hb, if_neg Bool.false_ne_true, if_neg Bool.false_ne_true, if_neg Bool.false_ne_true,
    if_pos h, if_neg (lt_asymm h)]
  rfl

end Extended

namespace Ticks

variable {a b : Extended}

/-- Nicing keeps the order of ends that differ. -/
theorem niceLinear_lt (h : a < b) (count : Nat) : (niceLinear a b count).1 < (niceLinear a b count).2 := by
  by_cases hfinite : Scalar.isFinite a = true ∧ Scalar.isFinite b = true
  · obtain ⟨x, rfl⟩ := Extended.isFinite_iff.mp hfinite.1
    obtain ⟨y, rfl⟩ := Extended.isFinite_iff.mp hfinite.2
    obtain ⟨x', y', hnice, hw⟩ := niceLinear_widens x y count
    rw [hnice]
    exact Extended.finite_lt.mpr (hw.lt (Extended.finite_lt.mp h))
  · rw [niceLinear_of_not_finite hfinite]
    exact h

end Ticks

/-- Nicing the logarithms of a span from its other end. -/
theorem Ticks.niceLog_swap {a b : Extended} (h : a < b) (base : Extended) :
    Ticks.niceLog b a base = (Ticks.niceLog a b base).swap := by
  unfold Ticks.niceLog
  rw [Extended.least_comm_of_lt h, if_pos h, if_neg (Extended.lt_asymm h)]
  rfl

/-- An interval with zero in it is not on one side of zero. -/
theorem includeZero_sides (a b : Extended) :
    ¬ (0 < (includeZero a b).1 ∧ 0 < (includeZero a b).2) ∧
      ¬ ((includeZero a b).1 < 0 ∧ (includeZero a b).2 < 0) := by
  have hirrefl : ¬ (0 : Extended) < 0 := fun h => Extended.lt_asymm h h
  have hzero : Scalar.isNaN (0 : Extended) = false := rfl
  have hleast : ∀ x : Extended, ¬ 0 < Scalar.least x 0 := by
    intro x
    unfold Scalar.least
    rw [hzero, if_neg Bool.false_ne_true]
    split
    · exact hirrefl
    · split
      · exact hirrefl
      next h => exact h
  have hgreatest : ∀ x : Extended, ¬ Scalar.greatest x 0 < 0 := by
    intro x
    unfold Scalar.greatest
    rw [hzero, if_neg Bool.false_ne_true]
    split
    · exact hirrefl
    · split
      · exact hirrefl
      next h => exact h
  unfold includeZero
  split
  · exact ⟨fun h => hleast a h.1, fun h => hgreatest b h.2⟩
  · exact ⟨fun h => hleast b h.2, fun h => hgreatest a h.1⟩

namespace CompleteScaleConfig

variable {c : CompleteScaleConfig Extended} {a b d r r' : Extended}

/-! ## Ends in both directions -/

theorem transform_of_isTime (h : c.family.isTime = true) : c.transform = .identity := by
  unfold CompleteScaleConfig.transform
  cases hf : c.family with
  | time | utc => rfl
  | _ => exact absurd h (by rw [hf]; decide)

theorem niceEnds_swap (h : a < b) (count : Nat) :
    c.niceEnds b a count = (c.niceEnds a b count).map Prod.swap := by
  unfold niceEnds
  split
  · exact Calendar.niceSpan_swap _ h (Extended.lt_asymm h) count
  · cases c.transform with
    | log base => exact congrArg Except.ok (Ticks.niceLog_swap h base)
    | identity | pow => exact congrArg Except.ok (Ticks.niceLinear_swap h count)

/-- What a config does to the ends of a domain it does to those of the domain in the other direction,
unless it is for a log scale that is to take in zero. -/
theorem movedEnds_swap (h : a < b) (hlog : c.takesZero = true → ∀ base, c.transform ≠ .log base)
    (count? : Option Nat) : c.movedEnds b a count? = (c.movedEnds a b count?).map Prod.swap := by
  have hzero : ∀ {p q : Extended}, p < q → c.zeroEnds (q, p) = (c.zeroEnds (p, q)).swap := by
    intro p q hpq
    unfold zeroEnds
    split
    · exact includeZero_swap hpq
    · rfl
  unfold movedEnds
  cases count? with
  | none => exact congrArg Except.ok (hzero h)
  | some count =>
    dsimp only
    rw [niceEnds_swap h]
    cases hnice : c.niceEnds a b count with
    | error fault => rfl
    | ok ends =>
      refine congrArg Except.ok ?_
      cases htakes : c.takesZero with
      | false =>
        unfold zeroEnds
        rw [htakes]
        rfl
      | true =>
        -- zero is taken in by scales without a calendar, whose ends are still apart
        refine hzero ?_
        have htime : c.family.isTime = false := by
          unfold takesZero at htakes
          rw [Bool.and_eq_true, Bool.not_eq_true'] at htakes
          exact htakes.2
        unfold niceEnds at hnice
        rw [htime, if_neg Bool.false_ne_true] at hnice
        cases htransform : c.transform with
        | log base => exact absurd htransform (hlog htakes base)
        | identity =>
          rw [htransform] at hnice
          cases hnice
          exact Ticks.niceLinear_lt h count
        | pow =>
          rw [htransform] at hnice
          cases hnice
          exact Ticks.niceLinear_lt h count

/-- Ends in the same place stay there, unless zero or powers are taken in. -/
theorem movedEnds_self (hzero : c.takesZero = false) {count? : Option Nat}
    (hlog : ∀ base, c.transform = .log base → count? = none) (a : Extended) :
    c.movedEnds a a count? = .ok (a, a) := by
  unfold movedEnds zeroEnds
  rw [hzero]
  cases count? with
  | none => rfl
  | some count =>
    have hnice : c.niceEnds a a count = .ok (a, a) := by
      unfold niceEnds
      split
      · exact Calendar.niceSpan_self _ a count
      · cases htransform : c.transform with
        | log base => nomatch hlog base htransform
        | identity | pow => exact congrArg Except.ok (Ticks.niceLinear_self a count)
    dsimp only
    rw [hnice]
    rfl

/-! ## Scales in both directions -/

/-- The scale over a range of two numbers that a config makes, its domain apart. -/
noncomputable def numeric (c : CompleteScaleConfig Extended) (r r' : Extended) : Continuous Extended :=
  { family := c.family
    transform := c.transform
    domain := [0, 1]
    range := .numbers [r, r']
    clamp := (c.setting .clamp).getD false }

/-- What fails before the ends of the domain are moved. -/
noncomputable def checked (c : CompleteScaleConfig Extended) : Except (Problem Extended) (Option Nat) := do
  c.checkBins
  discard c.colorSpace?
  c.niceCount?

theorem styled_numbers (hround : c.setting .round = none) (space? : Option ColorSpace) (domain) :
    c.styled
        { family := c.family, transform := c.transform, domain, range := .numbers [r, r'] } space?
      = { c.numeric r r' with domain } := by
  unfold styled numeric
  rw [hround]
  cases space? <;> rfl

/-- The scale of a config with a direction and two stops. -/
theorem continuous_of_numbers {on : Bool} {schemes : SchemeRegistry} (hround : c.setting .round = none)
    (hstops : (c.withSetting .reverse on).continuousStops schemes = .ok
      { family := c.family, transform := c.transform, domain := [a, b], range := .numbers [r, r'] }) :
    (c.withSetting .reverse on).continuous schemes = c.checked.bind fun count? =>
      (c.movedEnds a b count?).map fun ends => (c.numeric r r').withPair ends.1 ends.2 := by
  rw [continuous_withSetting_reverse hstops rfl rfl rfl]
  unfold checked
  cases c.checkBins with
  | error p => rfl
  | ok =>
    cases c.colorSpace? with
    | error p => rfl
    | ok space? =>
      cases c.niceCount? with
      | error p => rfl
      | ok count? =>
        simp only [bind, Except.bind, styled_numbers hround]
        show _ = Except.map _ (c.movedEnds a b count?)
        cases c.movedEnds a b count? <;> rfl

/-! ### Reading the domain -/

theorem isNaN_of_numberOfEntry {entry : DomainEntry Extended} (isTime : Bool)
    (h : c.numberOfEntry isTime entry = .ok a) : Scalar.isNaN a = false := by
  unfold numberOfEntry at h
  cases entry with
  | date spec =>
    dsimp only at h
    cases hdate : spec.resolve (c.family == .time) with
    | error fault =>
      rw [hdate] at h
      nomatch h
    | ok t =>
      rw [hdate] at h
      cases h
      rfl
  | value v =>
    dsimp only at h
    cases isTime with
    | true =>
      rw [if_pos rfl] at h
      cases hv : v.toInstant? with
      | none =>
        rw [hv] at h
        nomatch h
      | some t =>
        rw [hv] at h
        cases h
        rfl
    | false =>
      rw [if_neg Bool.false_ne_true] at h
      cases hv : v.toNumber? with
      | none =>
        rw [hv] at h
        nomatch h
      | some x =>
        rw [hv] at h
        cases h
        exact Value.isNaN_of_toNumber? hv

/-- A domain of two entries is read as two numbers, or not at all. -/
theorem numericDomain?_pair {e e' : DomainEntry Extended} (h : c.setting .domain = some [e, e']) :
    (∃ p, c.numericDomain? c.family.isTime = .error p) ∨
      ∃ a b, c.numberOfEntry c.family.isTime e = .ok a ∧ c.numberOfEntry c.family.isTime e' = .ok b ∧
        c.numericDomain? c.family.isTime = .ok (some [a, b]) := by
  unfold numericDomain?
  rw [h]
  dsimp only
  cases hread : [e, e'].mapM (c.numberOfEntry c.family.isTime) with
  | error p => exact Or.inl ⟨p, rfl⟩
  | ok xs =>
    cases Outcome.mapM_eq_ok_iff.mp hread with
    | cons ha hrest => cases hrest with
      | cons hb hnil => cases hnil with
        | nil => exact Or.inr ⟨_, _, ha, hb, rfl⟩

/-! ### Both directions -/

/-- The ends of a log domain that takes in zero. -/
theorem movedEnds_of_log {base : Extended} (hlog : c.transform = .log base) (hzero : c.takesZero = true)
    (a b : Extended) (count? : Option Nat) : ∃ x y, c.movedEnds a b count? = .ok (includeZero x y) := by
  unfold movedEnds zeroEnds
  rw [hzero]
  cases count? with
  | none => exact ⟨a, b, rfl⟩
  | some count =>
    have htime : c.family.isTime = false := by
      cases htime : c.family.isTime with
      | false => rfl
      | true =>
        rw [transform_of_isTime htime] at hlog
        nomatch hlog
    unfold niceEnds
    rw [htime, hlog]
    exact ⟨_, _, rfl⟩

/-- A domain whose ends differ is moved in both directions or in none, and the scales that come of it
mirror each other. -/
theorem moved_mirrored (h : a < b) (count? : Option Nat) (r r' : Extended) :
    (∃ p, c.movedEnds a b count? = .error p ∧ c.movedEnds b a count? = .error p) ∨
      ∃ ends ends', c.movedEnds a b count? = .ok ends ∧ c.movedEnds b a count? = .ok ends' ∧
        ∀ x, AreMirrored (r + r') (((c.numeric r r').withPair ends.1 ends.2).map x)
          (((c.numeric r r').withPair ends'.1 ends'.2).map x) := by
  by_cases hlog : c.takesZero = true → ∀ base, c.transform ≠ .log base
  · rw [movedEnds_swap h hlog]
    cases c.movedEnds a b count? with
    | error p => exact Or.inl ⟨p, rfl, rfl⟩
    | ok ends =>
      exact Or.inr ⟨ends, ends.swap, rfl, rfl, fun x => Continuous.map_mirrored_of_domain rfl rfl x⟩
  · -- a log scale that takes in zero gives nothing in either direction
    rw [Classical.not_imp, not_forall_not] at hlog
    obtain ⟨hzero, base, hbase⟩ := hlog
    obtain ⟨x, y, hends⟩ := movedEnds_of_log hbase hzero a b count?
    obtain ⟨x', y', hends'⟩ := movedEnds_of_log hbase hzero b a count?
    refine Or.inr ⟨_, _, hends, hends', fun z => Or.inl ⟨?_, ?_⟩⟩
    · exact Continuous.map_of_sides hbase rfl (includeZero_sides x y).1 (includeZero_sides x y).2
    · exact Continuous.map_of_sides hbase rfl (includeZero_sides x' y').1 (includeZero_sides x' y').2

/-- Both ends of a domain that is written are one number, and a stage of the config moves them apart. -/
def SplitsEnds (c : CompleteScaleConfig Extended) (s : Continuous Extended) : Prop :=
  ∃ e e' d p q, c.setting .domain = some [e, e'] ∧ c.numberOfEntry c.family.isTime e = .ok d ∧
    c.numberOfEntry c.family.isTime e' = .ok d ∧ s.domain = [p, q] ∧ p ≠ q ∧
    (c.takesZero = true ∨ c.family = .log ∧ ∃ count, c.niceCount? = .ok (some count))

/-- The stops of a config with a direction and a domain of two numbers. -/
theorem continuousStops_withSetting_reverse {schemes : SchemeRegistry} (on : Bool)
    (hrange : c.setting .range = some [.number r, .number r'])
    (hdomain : c.numericDomain? c.family.isTime = .ok (some [a, b])) :
    (c.withSetting .reverse on).continuousStops schemes = .ok
      { family := c.family
        transform := c.transform
        domain := if on then [b, a] else [a, b]
        range := .numbers [r, r'] } := by
  have hrange' : (c.withSetting .reverse on).setting .range = some ([r, r'].map .number) := by
    rw [setting_withSetting_of_ne (by decide), hrange]
    rfl
  have hdomain' : (c.withSetting .reverse on).numericDomain? (c.withSetting .reverse on).family.isTime
      = .ok (some [a, b]) :=
    (numericDomain?_withSetting (p := .reverse) (by decide) on _).trans hdomain
  rw [continuousStops_of_domain hrange' hdomain', transform_withSetting (by decide) (by decide),
    orient_withSetting_reverse]
  rfl

/-- The stops of a config with a direction and no domain. -/
theorem continuousStops_withSetting_reverse_of_no_domain {schemes : SchemeRegistry} (on : Bool)
    (hrange : c.setting .range = some [.number r, .number r']) (hdomain : c.setting .domain = none) :
    (c.withSetting .reverse on).continuousStops schemes = .ok
      { family := c.family
        transform := c.transform
        domain := [0, 1]
        range := .numbers (if on then [r', r] else [r, r']) } := by
  have hrange' : (c.withSetting .reverse on).setting .range = some ([r, r'].map .number) := by
    rw [setting_withSetting_of_ne (by decide), hrange]
    rfl
  have hdomain' : (c.withSetting .reverse on).setting .domain = none := by
    rw [setting_withSetting_of_ne (by decide), hdomain]
  rw [continuousStops_of_no_domain hrange' hdomain', transform_withSetting (by decide) (by decide),
    orient_withSetting_reverse]
  rfl

/-- Without a domain it is the range that is reversed, and nothing is done to that. -/
theorem continuous_mirrored_of_no_domain (schemes : SchemeRegistry)
    (hrange : c.setting .range = some [.number r, .number r']) (hround : c.setting .round = none)
    (hdomain : c.setting .domain = none) :
    (∃ p, (c.withSetting .reverse false).continuous schemes = .error p ∧
      (c.withSetting .reverse true).continuous schemes = .error p) ∨
    ∃ s s', (c.withSetting .reverse false).continuous schemes = .ok s ∧
      (c.withSetting .reverse true).continuous schemes = .ok s' ∧
      ∀ v, AreMirrored (r + r') (s.apply v) (s'.apply v) := by
  rw [continuous_of_numbers hround (continuousStops_withSetting_reverse_of_no_domain false hrange hdomain),
    continuous_of_numbers hround (continuousStops_withSetting_reverse_of_no_domain true hrange hdomain)]
  cases c.checked with
  | error p => exact Or.inl ⟨p, rfl, rfl⟩
  | ok count? =>
    cases hmoved : c.movedEnds 0 1 count? with
    | error p => exact Or.inl ⟨p, by rw [Except.bind, hmoved]; rfl, by rw [Except.bind, hmoved]; rfl⟩
    | ok ends =>
      refine Or.inr ⟨_, _, by rw [Except.bind, hmoved]; rfl, by rw [Except.bind, hmoved]; rfl, ?_⟩
      refine Continuous.apply_mirrored rfl ?_
      intro x
      exact Continuous.map_mirrored_of_range (s := c.numeric r r') rfl rfl x

theorem niceCount?_of_checked {count? : Option Nat} (h : c.checked = .ok count?) :
    c.niceCount? = .ok count? := by
  unfold checked at h
  obtain ⟨-, -, h⟩ := Outcome.bind_eq_ok_iff.mp h
  obtain ⟨-, -, h⟩ := Outcome.bind_eq_ok_iff.mp h
  exact h

/-- A config that measures by logarithms is one of a log scale. -/
theorem family_of_transform {base : Extended} (h : c.transform = .log base) : c.family = .log := by
  unfold CompleteScaleConfig.transform at h
  cases hf : c.family with
  | log => rfl
  | _ => rw [hf] at h; nomatch h

/-- Domains that are two numbers mirror each other, or are one that has been split. -/
theorem continuous_mirrored_of_domain (schemes : SchemeRegistry)
    (hrange : c.setting .range = some [.number r, .number r']) (hround : c.setting .round = none)
    (hdomain : c.numericDomain? c.family.isTime = .ok (some [a, b]))
    (ha : Scalar.isNaN a = false) (hb : Scalar.isNaN b = false) :
    (∃ p, (c.withSetting .reverse false).continuous schemes = .error p ∧
      (c.withSetting .reverse true).continuous schemes = .error p) ∨
    ∃ s s', (c.withSetting .reverse false).continuous schemes = .ok s ∧
      (c.withSetting .reverse true).continuous schemes = .ok s' ∧
      ((∀ v, AreMirrored (r + r') (s.apply v) (s'.apply v)) ∨
        s' = s ∧ a = b ∧ ∃ p q, s.domain = [p, q] ∧ p ≠ q ∧
          (c.takesZero = true ∨ c.family = .log ∧ ∃ count, c.niceCount? = .ok (some count))) := by
  rw [continuous_of_numbers hround (continuousStops_withSetting_reverse false hrange hdomain),
    continuous_of_numbers hround (continuousStops_withSetting_reverse true hrange hdomain)]
  cases hchecked : c.checked with
  | error p => exact Or.inl ⟨p, rfl, rfl⟩
  | ok count? =>
    dsimp only [Except.bind]
    by_cases hup : a < b
    · rcases moved_mirrored hup count? r r' with ⟨p, hp, hp'⟩ | ⟨ends, ends', hends, hends', hmirror⟩
      · rw [hp, hp']
        exact Or.inl ⟨p, rfl, rfl⟩
      · rw [hends, hends']
        exact Or.inr ⟨_, _, rfl, rfl, Or.inl (Continuous.apply_mirrored rfl hmirror)⟩
    · by_cases hdown : b < a
      · rcases moved_mirrored hdown count? r r' with ⟨p, hp, hp'⟩ | ⟨ends, ends', hends, hends', hmirror⟩
        · rw [hp, hp']
          exact Or.inl ⟨p, rfl, rfl⟩
        · rw [hends, hends']
          exact Or.inr ⟨_, _, rfl, rfl,
            Or.inl (Continuous.apply_mirrored rfl fun x => (hmirror x).symm)⟩
      · -- the ends are in the same place, so that both configs do the same
        obtain rfl := Extended.eq_of_not_lt ha hb hup hdown
        cases hmoved : c.movedEnds a a count? with
        | error p => exact Or.inl ⟨p, rfl, rfl⟩
        | ok ends =>
          obtain ⟨p, q⟩ := ends
          refine Or.inr ⟨_, _, rfl, rfl, ?_⟩
          by_cases hpq : p = q
          · subst hpq
            exact Or.inl (Continuous.apply_mirrored rfl fun x =>
              Continuous.map_mirrored_of_domain rfl rfl x)
          · refine Or.inr ⟨rfl, rfl, p, q, rfl, hpq, ?_⟩
            by_contra hnot
            rw [not_or, Bool.not_eq_true] at hnot
            have hplain : ∀ base, c.transform = .log base → count? = none := by
              intro base hbase
              refine Option.eq_none_iff_forall_ne_some.mpr fun count hcount => ?_
              refine hnot.2 ⟨family_of_transform hbase, count, ?_⟩
              rw [niceCount?_of_checked hchecked, hcount]
            rw [movedEnds_self hnot.1 hplain] at hmoved
            cases hmoved
            exact hpq rfl

/-- The scales of a config in both directions mirror each other, unless they are one. -/
theorem continuous_mirrored (schemes : SchemeRegistry)
    (hrange : c.setting .range = some [.number r, .number r']) (hround : c.setting .round = none)
    (hdomain : ∀ entries, c.setting .domain = some entries → ∃ e e', entries = [e, e']) :
    (∃ p, (c.withSetting .reverse false).continuous schemes = .error p ∧
      (c.withSetting .reverse true).continuous schemes = .error p) ∨
    ∃ s s', (c.withSetting .reverse false).continuous schemes = .ok s ∧
      (c.withSetting .reverse true).continuous schemes = .ok s' ∧
      ((∀ v, AreMirrored (r + r') (s.apply v) (s'.apply v)) ∨ s' = s ∧ c.SplitsEnds s) := by
  cases hentries : c.setting .domain with
  | none =>
    rcases continuous_mirrored_of_no_domain schemes hrange hround hentries with
      h | ⟨s, s', hs, hs', hmirror⟩
    · exact Or.inl h
    · exact Or.inr ⟨s, s', hs, hs', Or.inl hmirror⟩
  | some entries =>
    obtain ⟨e, e', rfl⟩ := hdomain entries hentries
    rcases numericDomain?_pair hentries with ⟨p, hp⟩ | ⟨a, b, ha, hb, hab⟩
    · have herror : ∀ on, (c.withSetting .reverse on).continuous schemes = .error p := by
        intro on
        unfold continuous continuousStops
        rw [numericDomain?_withSetting (by decide), family_withSetting, hp]
        rfl
      exact Or.inl ⟨p, herror false, herror true⟩
    · rcases continuous_mirrored_of_domain schemes hrange hround hab (isNaN_of_numberOfEntry _ ha)
        (isNaN_of_numberOfEntry _ hb) with h | ⟨s, s', hs, hs', h | ⟨rfl, rfl, p, q, hpq⟩⟩
      · exact Or.inl h
      · exact Or.inr ⟨s, s', hs, hs', Or.inl h⟩
      · exact Or.inr ⟨_, _, hs, hs', Or.inr ⟨rfl, e, e', a, p, q, hentries, ha, hb, hpq⟩⟩

/-- **Reversal of continuous scales.** A config of two numbers over two numbers that rounds nothing is turned
into a scale whatever its direction, or refused whatever it is. For every value the scales in both directions
give nothing, or numbers that sum up to the ends of the range, unless the ends of the domain are one number
and a stage has moved them apart: then the two scales are the same. -/
theorem realize_mirrored (hf : c.family.isContinuous = true) (hs : c.family ≠ .symlog)
    (hrange : c.setting .range = some [.number r, .number r']) (hround : c.setting .round = none)
    (hdomain : ∀ entries, c.setting .domain = some entries → ∃ e e', entries = [e, e'])
    (session : Session Extended) :
    let plain := (c.withSetting .reverse false).realize.run.run session
    let turned := (c.withSetting .reverse true).realize.run.run session
    (∃ p, plain = (.error p, session) ∧ turned = (.error p, session)) ∨
    ∃ s s', plain = (.ok (.continuous s), session) ∧ turned = (.ok (.continuous s'), session) ∧
      ((∀ v, AreMirrored (r + r') (s.apply v) (s'.apply v)) ∨ s' = s ∧ c.SplitsEnds s) := by
  intro plain turned
  have hplain : plain = _ := realize_of_isContinuous (c := c.withSetting .reverse false) hf hs session
  have hturned : turned = _ := realize_of_isContinuous (c := c.withSetting .reverse true) hf hs session
  rcases continuous_mirrored session.colors.schemes hrange hround hdomain with
    ⟨p, hp, hp'⟩ | ⟨s, s', hs, hs', h⟩
  · rw [hp] at hplain
    rw [hp'] at hturned
    exact Or.inl ⟨p, hplain, hturned⟩
  · rw [hs] at hplain
    rw [hs'] at hturned
    exact Or.inr ⟨s, s', hplain, hturned, h⟩

theorem realize_mirrored_zeroToTen :
    let c : CompleteScaleConfig Extended :=
      { family := .linear
        options := (ScaleOptions.empty.set .domain
          (some [.value (.number 0), .value (.number 10)])).set .range (some [.number 0, .number 1]) }
    ∃ s s', (c.withSetting .reverse false).realize.run.run {} = (.ok (.continuous s), {}) ∧
      (c.withSetting .reverse true).realize.run.run {} = (.ok (.continuous s'), {}) ∧
      ∀ v, AreMirrored (0 + 1) (s.apply v) (s'.apply v) := by
  intro c
  have hdomain : ∀ entries, c.setting .domain = some entries → ∃ e e', entries = [e, e'] := by
    rintro _ ⟨⟩
    exact ⟨_, _, rfl⟩
  rcases realize_mirrored (c := c) rfl (by decide) rfl rfl hdomain {} with
    ⟨p, hp, -⟩ | ⟨s, s', hs, hs', hmirror | ⟨-, e, e', d, p, q, hentries, he, he', -⟩⟩
  · nomatch hp
  · exact ⟨s, s', hs, hs', hmirror⟩
  · cases hentries
    cases he
    have heq : (10 : Extended) = 0 := Except.ok.inj he'
    rw [Extended.ofNat_eq, Extended.ofNat_eq] at heq
    norm_num at heq

/-- Zero is taken into the domain from five to five as if it ascended, in both directions. -/
theorem not_mirrored_of_equal_ends :
    let c : CompleteScaleConfig Extended :=
      { family := .linear
        options := ((ScaleOptions.empty.set .domain
          (some [.value (.number 5), .value (.number 5)])).set .range
            (some [.number 0, .number 1])).set .zero (some true) }
    ∃ s s', (c.withSetting .reverse false).realize.run.run {} = (.ok (.continuous s), {}) ∧
      (c.withSetting .reverse true).realize.run.run {} = (.ok (.continuous s'), {}) ∧
      s.apply (.number 5) = .number 1 ∧ s'.apply (.number 5) = .number 1 ∧
      ¬ AreMirrored (0 + 1) (s.apply (.number 5)) (s'.apply (.number 5)) := by
  intro c
  have hends : c.movedEnds 5 5 none = .ok (finite 0, finite 5) := by
    show Except.ok (includeZero 5 5) = _
    unfold includeZero
    simp only [Extended.ofNat_eq, Extended.finite_le, Extended.least_finite, Extended.greatest_finite]
    norm_num
  have hmade : ∀ on, (c.withSetting .reverse on).realize.run.run {}
      = (.ok (.continuous ((c.numeric 0 1).withPair (finite 0) (finite 5))), {}) := by
    intro on
    have hfamily : ScaleFamily.linear ≠ .symlog := by decide
    have hstops : (c.withSetting .reverse on).continuousStops ({} : Session Extended).colors.schemes
        = .ok { family := c.family, transform := c.transform, domain := [5, 5], range := .numbers [0, 1] } := by
      rw [continuousStops_withSetting_reverse (c := c) (a := 5) (b := 5) on rfl rfl]
      cases on <;> rfl
    rw [realize_of_isContinuous (c := c.withSetting .reverse on) rfl hfamily,
      continuous_of_numbers (c := c) rfl hstops, show c.checked = .ok none from rfl, Except.bind, hends]
    rfl
  have happly : ((c.numeric 0 1).withPair (finite 0) (finite 5)).apply (.number 5) = .number 1 := by
    show ((c.numeric 0 1).withPair (finite 0) (finite 5)).map 5 = .number 1
    have hfive : (5 : Extended) = finite 5 := by rw [Extended.ofNat_eq]; norm_num
    rw [Continuous.map_withPair rfl, hfive]
    rw [Continuous.mapTransformed_pair (p := 0) (q := 5) rfl rfl rfl rfl rfl]
    rw [if_neg (by norm_num)]
    show Continuous.between 0 1 (fractionBetween (finite 0) (finite 5) (finite 5)) = _
    have hfraction : fractionBetween (finite 0) (finite 5) (finite 5) = finite 1 := by
      unfold fractionBetween
      rw [if_neg (fun h => by rw [Extended.finite_beq] at h; norm_num at h), Extended.finite_sub,
        Extended.finite_div (by norm_num), div_self (by norm_num)]
    rw [hfraction, Extended.zero_eq, Extended.one_eq, Continuous.between_finite]
    norm_num
  refine ⟨_, _, hmade false, hmade true, happly, happly, ?_⟩
  rw [happly]
  rintro (⟨h, -⟩ | ⟨y, z, ⟨⟩, ⟨⟩, hsum⟩)
  · cases h
  · rw [Extended.zero_eq, Extended.one_eq, Extended.finite_add, Extended.finite_add] at hsum
    norm_num at hsum

end CompleteScaleConfig

end VisualEncoding
