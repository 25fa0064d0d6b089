import VisualEncoding.Proofs.Outcome
import VisualEncoding.Proofs.Scale.Settings

/-!
# The ends of a continuous scale

Once a continuous config has its stops, all that is done to a domain of two stops is to move its ends: to
round values if it is to be nice, then to take in zero (`movedEnds`). What may fail on the way does not
depend on the stops, apart from the calendar (`continuous_of_pair`).
-/

namespace VisualEncoding

variable {α : Type} [Scalar α]

/-- The stops of a range, blended in a space if they are colors. -/
def OutputRange.blendedIn (space : ColorSpace) : OutputRange α → OutputRange α
  | .numbers stops => .numbers stops
  | .colors ramp => .colors (ramp.withSpace space)

namespace CompleteScaleConfig

variable {c : CompleteScaleConfig α} {schemes : SchemeRegistry} {s : Continuous α} {a b : α}

/-- Whether zero is taken into the domain. -/
def takesZero (c : CompleteScaleConfig α) : Bool :=
  ScaleOptions.isOn (c.setting .zero) && !c.family.isTime

/-- The ends of a domain, moved outward to round values. -/
def niceEnds (c : CompleteScaleConfig α) (a b : α) (count : Nat) :
    Except Calendar.IntervalFault (α × α) :=
  if c.family.isTime then Calendar.niceSpan (Calendar.Zone.ofLocal (c.family == .time)) a b count
  else match c.transform with
    | .log base => .ok (Ticks.niceLog a b base)
    | _ => .ok (Ticks.niceLinear a b count)

/-- The ends of a domain, moved outward to take in zero if the config says so. -/
def zeroEnds (c : CompleteScaleConfig α) (ends : α × α) : α × α :=
  if c.takesZero then includeZero ends.1 ends.2 else ends

/-- The ends of a domain as a config moves them, to a number of ticks if there is one. -/
def movedEnds (c : CompleteScaleConfig α) (a b : α) (count? : Option Nat) :
    Except (Problem α) (α × α) :=
  match count? with
  | some count => (onCalendar (c.niceEnds a b count)).map c.zeroEnds
  | none => .ok (c.zeroEnds (a, b))

/-- What else a config makes of a scale: it may clamp, round and blend in another space. -/
def styled (c : CompleteScaleConfig α) (s : Continuous α) (space? : Option ColorSpace) :
    Continuous α :=
  { s with
    range := (space?.map s.range.blendedIn).getD s.range
    clamp := (c.setting .clamp).getD s.clamp
    round := (c.setting .round).getD s.round }

theorem nice_of_pair (hdomain : s.domain = [a, b]) (hfamily : s.family = c.family)
    (htransform : s.transform = c.transform) (count : Nat) :
    s.nice count = (c.niceEnds a b count).map fun ends => { s with domain := [ends.1, ends.2] } := by
  unfold Continuous.nice Continuous.moveEnds niceEnds Continuous.zone
  rw [hdomain, hfamily, htransform]
  dsimp only [List.getLast_singleton, List.dropLast_singleton]
  split
  · cases Calendar.niceSpan (Calendar.Zone.ofLocal (c.family == .time)) a b count <;> rfl
  · cases c.transform <;> rfl

/-- What a config makes of a scale with two stops. -/
theorem continuous_of_pair (hstops : c.continuousStops schemes = .ok s) (hdomain : s.domain = [a, b])
    (hfamily : s.family = c.family) (htransform : s.transform = c.transform) :
    c.continuous schemes = do
      c.checkBins
      let space? ← c.colorSpace?
      let count? ← c.niceCount?
      let ends ← c.movedEnds a b count?
      return { c.styled s space? with domain := [ends.1, ends.2] } := by
  obtain ⟨family, transform, domain, range, clamp, round⟩ := s
  subst hdomain hfamily htransform
  unfold continuous movedEnds
  rw [hstops]
  cases c.checkBins with
  | error p => rfl
  | ok =>
    cases c.colorSpace? with
    | error p => rfl
    | ok space? =>
      cases c.niceCount? with
      | error p => cases space? <;> rfl
      | ok count? =>
        -- the space concerns colors alone, and neither it nor the clamp the ends of the domain
        cases count? with
        | none =>
          unfold zeroEnds takesZero
          cases space? <;> cases range <;> simp only [bind, Except.bind, pure, Except.pure] <;>
            split <;> rfl
        | some count =>
          unfold zeroEnds takesZero
          have hnice := fun s' : Continuous α => nice_of_pair (s := s') (c := c) (a := a) (b := b)
          cases space? <;> cases range <;> simp only [bind, Except.bind] <;>
            rw [hnice _ rfl rfl rfl]
          all_goals
            cases c.niceEnds a b count with
            | error fault => rfl
            | ok ends =>
              refine congrArg Except.ok ?_
              show (if _ then _ else _) = _
              dsimp only
              split <;> rfl

/-! ## Settings that have no part -/

variable {p : ScaleProperty}

omit [Scalar α] in
theorem rangeOrScheme?_withSetting (hrange : p ≠ .range) (hscheme : p ≠ .scheme) (value : Setting α p) :
    (c.withSetting p value).rangeOrScheme? schemes = c.rangeOrScheme? schemes := by
  unfold rangeOrScheme?
  rw [setting_withSetting_of_ne hrange.symm, setting_withSetting_of_ne hscheme.symm]

omit [Scalar α] in
theorem checkBins_withSetting (h : p ≠ .bins) (value : Setting α p) :
    (c.withSetting p value).checkBins = c.checkBins := by
  unfold checkBins
  rw [setting_withSetting_of_ne h.symm]

theorem colorSpace?_withSetting (h : p ≠ .interpolate) (value : Setting α p) :
    (c.withSetting p value).colorSpace? = c.colorSpace? := by
  unfold colorSpace?
  rw [setting_withSetting_of_ne h.symm]

theorem niceCount?_withSetting (h : p ≠ .nice) (value : Setting α p) :
    (c.withSetting p value).niceCount? = c.niceCount? := by
  unfold niceCount?
  rw [setting_withSetting_of_ne h.symm]

theorem numericDomain?_withSetting (h : p ≠ .domain) (value : Setting α p) (isTime : Bool) :
    (c.withSetting p value).numericDomain? isTime = c.numericDomain? isTime := by
  unfold numericDomain?
  rw [setting_withSetting_of_ne h.symm]
  rfl

theorem transform_withSetting (hbase : p ≠ .base) (hexponent : p ≠ .exponent) (value : Setting α p) :
    (c.withSetting p value).transform = c.transform := by
  unfold CompleteScaleConfig.transform
  rw [setting_withSetting_of_ne hbase.symm, setting_withSetting_of_ne hexponent.symm]
  rfl

theorem movedEnds_withSetting (hbase : p ≠ .base) (hexponent : p ≠ .exponent) (hzero : p ≠ .zero)
    (value : Setting α p) : (c.withSetting p value).movedEnds = c.movedEnds := by
  funext a b count?
  unfold movedEnds niceEnds zeroEnds takesZero
  rw [transform_withSetting hbase hexponent, setting_withSetting_of_ne hzero.symm]
  rfl

/-- The direction of a config has a part in its stops alone. -/
theorem continuous_withSetting_reverse {on : Bool}
    (hstops : (c.withSetting .reverse on).continuousStops schemes = .ok s) (hdomain : s.domain = [a, b])
    (hfamily : s.family = c.family) (htransform : s.transform = c.transform) :
    (c.withSetting .reverse on).continuous schemes = do
      c.checkBins
      let space? ← c.colorSpace?
      let count? ← c.niceCount?
      let ends ← c.movedEnds a b count?
      return { c.styled s space? with domain := [ends.1, ends.2] } := by
  have hstyled : (c.withSetting .reverse on).styled = c.styled := by
    funext s space?
    unfold styled
    rw [setting_withSetting_of_ne (by decide), setting_withSetting_of_ne (by decide)]
  have htransform' := htransform.trans
    (transform_withSetting (c := c) (p := .reverse) (by decide) (by decide) on).symm
  rw [continuous_of_pair hstops hdomain hfamily htransform', checkBins_withSetting (by decide),
    colorSpace?_withSetting (by decide), niceCount?_withSetting (by decide),
    movedEnds_withSetting (by decide) (by decide) (by decide), hstyled]

/-! ## Stops -/

omit [Scalar α] in
/-- A range of numbers is read as it is. -/
theorem outputRange_numbers (rs : List α) (space : ColorSpace) :
    outputRange (rs.map .number) space = .ok (.numbers rs) := by
  have hread : rs.mapM (m := Option) (fun x => some x) = some rs :=
    (List.mapM_pure (m := Option) (f := id)).trans (congrArg some (List.map_id rs))
  unfold outputRange
  dsimp only
  split
  next numbers h =>
    rw [List.mapM_map] at h
    cases h.symm.trans hread
    rfl
  next h =>
    rw [List.mapM_map] at h
    exact nomatch h.symm.trans hread

omit [Scalar α] in
theorem rangeOrScheme?_of_range {range : List (Value α)} (h : c.setting .range = some range) :
    c.rangeOrScheme? schemes = some range := by
  unfold rangeOrScheme?
  rw [h]

/-- The range of a continuous config, the unit interval if it names none. -/
def outputStops? (c : CompleteScaleConfig α) (schemes : SchemeRegistry) :
    Except (Problem α) (OutputRange α) :=
  match c.rangeOrScheme? schemes with
  | some range => outputRange range .oklab
  | none => .ok (.numbers [0, 1])

theorem outputStops?_of_numbers {rs : List α} (hrange : c.setting .range = some (rs.map .number)) :
    c.outputStops? schemes = .ok (.numbers rs) := by
  unfold outputStops?
  rw [rangeOrScheme?_of_range hrange]
  exact outputRange_numbers rs .oklab

/-- The scale over a domain that has been read; without a domain the range is reversed in its place. -/
def stopsOver (c : CompleteScaleConfig α) (domain? : Option (List α)) (range : OutputRange α) :
    Continuous α where
  family := c.family
  transform := c.transform
  domain := domain?.elim [0, 1] c.orient
  range := if c.isReversed && domain?.isNone then range.reversed else range

theorem continuousStops_eq {domain? : Option (List α)}
    (hdomain : c.numericDomain? c.family.isTime = .ok domain?) :
    c.continuousStops schemes = (c.outputStops? schemes).map (c.stopsOver domain?) := by
  unfold continuousStops outputStops? stopsOver
  rw [hdomain]
  cases c.rangeOrScheme? schemes with
  | none => cases domain? <;> cases c.isReversed <;> rfl
  | some range =>
    simp only [bind, Except.bind]
    cases outputRange range .oklab with
    | error p => rfl
    | ok stops => cases domain? <;> cases c.isReversed <;> rfl

theorem numericDomain?_of_none (hopen : c.setting .domain = none) (isTime : Bool) :
    c.numericDomain? isTime = .ok none := by
  unfold numericDomain?
  rw [hopen]

/-- The stops of a config with a domain, over a range of numbers. -/
theorem continuousStops_of_domain {xs rs : List α} (hrange : c.setting .range = some (rs.map .number))
    (hdomain : c.numericDomain? c.family.isTime = .ok (some xs)) :
    c.continuousStops schemes = .ok
      { family := c.family
        transform := c.transform
        domain := c.orient xs
        range := .numbers rs } := by
  rw [continuousStops_eq hdomain, outputStops?_of_numbers hrange]
  unfold stopsOver
  rw [Option.isNone_some, Bool.and_false]
  rfl

/-- The stops of a config without a domain, over a range of numbers. -/
theorem continuousStops_of_no_domain {rs : List α} (hrange : c.setting .range = some (rs.map .number))
    (hdomain : c.setting .domain = none) :
    c.continuousStops schemes = .ok
      { family := c.family
        transform := c.transform
        domain := [0, 1]
        range := .numbers (c.orient rs) } := by
  rw [continuousStops_eq (numericDomain?_of_none hdomain _), outputStops?_of_numbers hrange]
  unfold stopsOver orient
  rw [Option.isNone_none, Bool.and_true]
  cases c.isReversed <;> rfl

/-! ## What a config says beside its domain -/

/-- The range of a continuous config, the space of its colors and the number of ticks to which its domain is
niced. -/
def continuousStyle (c : CompleteScaleConfig α) (schemes : SchemeRegistry) :
    Except (Problem α) (OutputRange α × Option ColorSpace × Option Nat) := do
  let range ← c.outputStops? schemes
  c.checkBins
  let space? ← c.colorSpace?
  let count? ← c.niceCount?
  return (range, space?, count?)

/-- The number of ticks in the style is the one that the config says. -/
theorem niceCount?_of_continuousStyle {style : OutputRange α × Option ColorSpace × Option Nat}
    (h : c.continuousStyle schemes = .ok style) : c.niceCount? = .ok style.2.2 := by
  unfold continuousStyle at h
  obtain ⟨range, -, h⟩ := Outcome.bind_eq_ok_iff.mp h
  obtain ⟨-, -, h⟩ := Outcome.bind_eq_ok_iff.mp h
  obtain ⟨space?, -, h⟩ := Outcome.bind_eq_ok_iff.mp h
  obtain ⟨count?, hcount, h⟩ := Outcome.bind_eq_ok_iff.mp h
  cases h
  exact hcount

theorem continuousStyle_withSetting (hp : p ∈ [ScaleProperty.domain, .reverse, .clamp])
    (value : Setting α p) :
    (c.withSetting p value).continuousStyle schemes = c.continuousStyle schemes := by
  have hne : ∀ q, q ∉ [ScaleProperty.domain, .reverse, .clamp] → p ≠ q := by
    rintro q hq rfl
    exact hq hp
  unfold continuousStyle outputStops?
  rw [rangeOrScheme?_withSetting (hne _ (by decide)) (hne _ (by decide)),
    checkBins_withSetting (hne _ (by decide)), colorSpace?_withSetting (hne _ (by decide)),
    niceCount?_withSetting (hne _ (by decide))]

/-- A continuous config with two ends becomes a scale once its style is read and its ends are moved. -/
theorem continuous_eq {domain? : Option (List α)} (hdomain : c.numericDomain? c.family.isTime = .ok domain?)
    (hends : domain?.elim [0, 1] c.orient = [a, b]) :
    c.continuous schemes = do
      let (range, space?, count?) ← c.continuousStyle schemes
      let ends ← c.movedEnds a b count?
      return { c.styled (c.stopsOver domain? range) space? with domain := [ends.1, ends.2] } := by
  unfold continuousStyle
  cases hstops : c.outputStops? schemes with
  | error p =>
    unfold continuous
    rw [continuousStops_eq hdomain, hstops]
    rfl
  | ok range =>
    have hread : c.continuousStops schemes = .ok (c.stopsOver domain? range) := by
      rw [continuousStops_eq hdomain, hstops]
      rfl
    rw [continuous_of_pair hread hends rfl rfl]
    cases c.checkBins with
    | error p => rfl
    | ok u =>
      cases c.colorSpace? with
      | error p => rfl
      | ok space? => cases c.niceCount? <;> rfl

end CompleteScaleConfig

end VisualEncoding
