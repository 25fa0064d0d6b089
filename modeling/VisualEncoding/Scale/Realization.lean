import VisualEncoding.Problem
import VisualEncoding.Scale.Realized

/-!
# Realizing scale configs

A config is turned into a plan, which can fail and touches nothing; a plan is then put into effect,
which cannot fail. Only the color table of a config that shares one is requested before the plan, so a
failed config may leave an empty table behind. The settings are applied in a fixed order: domain, range,
bins, clamp, interpolation, nice, paddings, round, zero.

The order is that of the specification, §4.5. Notes:
- `zero` and `nice` are obeyed by what is set, without a second look at the table of §4.2: a config written by
  hand can take in zero on a log scale, and a threshold scale never reads its `nice`, not even to refuse one
  that names an interval;
- a calendar step without a result is a problem of its own kind (`Problem.calendar`), besides the missing
  features and malformed configs of §7;
- that a scale was realized, or that a scheme is unknown, is not logged (§8).
-/

namespace VisualEncoding

/-- A scale that is not yet part of a session. -/
inductive ScalePlan (α : Type) [Scalar α] where
  /-- A scale without a part in the session. -/
  | alone (s : Scale α)
  | ordinal (o : Ordinal α)
  | colors (scheme group : Option String) (domain : Categories α)

namespace ScalePlan

variable {α : Type} [Scalar α]

/-- Makes a planned scale part of the session. A color table gives the categories of the domain their
colors in turn. -/
def realize : ScalePlan α → StateM (Session α) (Scale α)
  | .alone s => pure s
  | .ordinal o => return .ordinal (← Session.addOrdinal o)
  | .colors scheme group domain => do
    let table ← Session.tableFor scheme group
    Session.onTable table fun t => ((), t.preassign domain)
    return .colors table domain

end ScalePlan

namespace CompleteScaleConfig

variable {α : Type} [Scalar α]

/-! ## Settings -/

/-- Whether the domain is to be reversed. -/
def isReversed (c : CompleteScaleConfig α) : Bool := ScaleOptions.isOn (c.setting .reverse)

/-- Reverses a list if the config says so. -/
def orient {β : Type} (c : CompleteScaleConfig α) (items : List β) : List β :=
  if c.isReversed then items.reverse else items

/-- Refuses bins. -/
def checkBins (c : CompleteScaleConfig α) : Except (Problem α) Unit :=
  match c.setting .bins with
  | some _ => .error (.missingFeature .bins)
  | none => .ok ()

/-- The number of ticks whose step the ends of the domain are moved to. -/
def niceCount? (c : CompleteScaleConfig α) : Except (Problem α) (Option Nat) :=
  match c.setting .nice with
  | none => .ok none
  | some (.flag on) => .ok (if on then some Ticks.defaultCount else none)
  | some (.count n) => .ok (if 1 ≤ n then some (Scalar.toCount n) else none)
  | some (.interval name) => .error (.missingFeature (.niceInterval name))
  | some (.intervalStep name _) => .error (.missingFeature (.niceInterval name))

/-- An entry of a domain as a number. On a span of time values are read as instants. -/
def numberOfEntry (c : CompleteScaleConfig α) (isTime : Bool) (entry : DomainEntry α) :
    Except (Problem α) α := do
  let number? ← match entry with
    | .date spec =>
      match spec.resolve (c.family == .time) with
      | .ok t => pure (some (Scalar.ofInt t.millis))
      | .error fault => throw (.date fault)
    | .value v =>
      pure (if isTime then v.toInstant?.map fun t => Scalar.ofInt t.millis else v.toNumber?)
  match number? with
  | some x => return x
  | none => throw (.domainEntry entry c.family)

/-- The domain as numbers, in the order written. -/
def numericDomain? (c : CompleteScaleConfig α) (isTime : Bool) :
    Except (Problem α) (Option (List α)) :=
  match c.setting .domain with
  | none => .ok none
  | some entries => (entries.mapM (c.numberOfEntry isTime)).map some

/-- An entry of a domain as a category. -/
def valueOfEntry (entry : DomainEntry α) : Except (Problem α) (Value α) :=
  match entry with
  | .value v => .ok v
  | .date spec =>
    match spec.resolve false with
    | .ok t => .ok (.dateTime t)
    | .error fault => .error (.date fault)

/-- The domain as categories, reversed if the config says so. -/
def discreteDomain? (c : CompleteScaleConfig α) : Except (Problem α) (Option (List (Value α))) :=
  match c.setting .domain with
  | none => .ok none
  | some entries => (entries.mapM valueOfEntry).map fun values => some (c.orient values)

/-- The range that is set, or the colors of the sequential scheme that is named. -/
def rangeOrScheme? (c : CompleteScaleConfig α) (schemes : SchemeRegistry) : Option (List (Value α)) :=
  match c.setting .range with
  | some range => some range
  | none => ((c.setting .scheme).bind schemes.sequential?).map fun colors => colors.map .string

/-- The range of groups of numbers, `default` if there is none; it is reversed in place of the domain,
which has to ascend. -/
def groupRange (c : CompleteScaleConfig α) (schemes : SchemeRegistry) (default : List (Value α)) :
    List (Value α) :=
  c.orient ((c.rangeOrScheme? schemes).getD default)

/-- The unit range. -/
def unitRange : List (Value α) := [.number 0, .number 1]

/-- The space of an interpolation method, whose name may be in any case. -/
def spaceOfMethod (method : String) (gamma : Option α) : Except (Problem α) ColorSpace :=
  match Text.lower method with
  | "rgb" => .ok (.rgb (Scalar.toSingle (gamma.getD 1)))
  | "oklab" => .ok .oklab
  | "lab" => .ok .lab
  | "hcl" => .ok .hcl
  | "hsl" => .ok .hsl
  | name =>
    if name == "hcl-long" || name == "hsl-long" || name == "cubehelix" || name == "cubehelix-long" then
      .error (.missingFeature (.interpolation method))
    else .error (.interpolationMethod name)

/-- The space in which colors are blended, if it is set. -/
def colorSpace? (c : CompleteScaleConfig α) : Except (Problem α) (Option ColorSpace) :=
  match c.setting .interpolate with
  | none => .ok none
  | some (.name name) => .error (.missingFeature (.interpolationName name))
  | some (.params method gamma) => (spaceOfMethod method gamma).map some

/-- A ramp of written colors. -/
def rampOfTexts (texts : List String) (space : ColorSpace) : Except (Problem α) ColorRamp :=
  match ColorRamp.ofTexts? texts space with
  | .ok (some ramp) => .ok ramp
  | .ok none => .error .noColors
  | .error (text, fault) => .error (.color text fault)

/-- The stops of a range: numbers if all are numbers, else colors. -/
def outputRange (values : List (Value α)) (space : ColorSpace) : Except (Problem α) (OutputRange α) := do
  let number? : Value α → Option α
    | .number x => some x
    | _ => none
  match values.mapM number? with
  | some numbers => return .numbers numbers
  | none =>
    let texts ← values.mapM fun v =>
      match v with
      | .string s => .ok s
      | v => .error (.rangeValue v)
    return .colors (← rampOfTexts texts space)

/-- A step of the calendar that may have no result. -/
def onCalendar {β : Type} (result : Except Calendar.IntervalFault β) : Except (Problem α) β :=
  result.mapError .calendar

/-! ## Families -/

/-- What distances in the domain are measured by. -/
def transform (c : CompleteScaleConfig α) : Transform α :=
  match c.family with
  | .log => .log ((c.setting .base).getD 10)
  | .pow => .pow ((c.setting .exponent).getD 1)
  | .sqrt => .pow (1 / 2)
  | _ => .identity

/-- The scale with the domain and range of a continuous config. A config without a domain reverses the
range. -/
def continuousStops (c : CompleteScaleConfig α) (schemes : SchemeRegistry) :
    Except (Problem α) (Continuous α) := do
  let s := Continuous.ofFamily c.family c.transform
  let domain? ← c.numericDomain? c.family.isTime
  let s := match domain? with
    | some domain => s.withDomain (c.orient domain)
    | none => s
  let s ← match c.rangeOrScheme? schemes with
    | some range => do
      let range ← outputRange range .oklab
      pure (s.withRange range)
    | none => pure s
  return if c.isReversed && domain?.isNone then s.reversed else s

/-- A continuous scale. -/
def continuous (c : CompleteScaleConfig α) (schemes : SchemeRegistry) :
    Except (Problem α) (Continuous α) := do
  let s ← c.continuousStops schemes
  c.checkBins
  let s := s.withClamp ((c.setting .clamp).getD s.clamp)
  let s := match ← c.colorSpace? with
    | some space => s.withSpace space
    | none => s
  let s ← match ← c.niceCount? with
    | some count => onCalendar (s.nice count)
    | none => pure s
  let s := s.withRound ((c.setting .round).getD s.round)
  return if ScaleOptions.isOn (c.setting .zero) && !c.family.isTime then s.withZero else s

/-- The ends of a numeric range. -/
def rangeEnds (c : CompleteScaleConfig α) (range : List (Value α)) : Except (Problem α) (α × α) :=
  match range.mapM Value.toNumber? with
  | some (start :: rest) => .ok (start, (start :: rest).getLast (List.cons_ne_nil _ _))
  | _ => .error (.rangeNotNumeric c.family range)

/-- The scale with the domain and range of a band or point config. A config without a domain reverses
the range. -/
def bandStops (c : CompleteScaleConfig α) : Except (Problem α) (Band α) := do
  let s := Band.ofKind (c.family == .point)
  let domain? ← c.discreteDomain?
  let s := match domain? with
    | some domain => s.withDomain domain
    | none => s
  let s ← match c.setting .range with
    | some range => do
      let (start, stop) ← c.rangeEnds range
      pure (s.withRange start stop)
    | none => pure s
  return if c.isReversed && domain?.isNone then s.reversed else s

/-- A band or point scale with the space between and around its bands set. -/
def spaced (c : CompleteScaleConfig α) (s : Band α) : Band α :=
  let s := ((c.setting .align).map s.withAlign).getD s
  let s := ((c.setting .padding).map s.withPadding).getD s
  let s := ((c.setting .paddingInner).map s.withPaddingInner).getD s
  let s := ((c.setting .paddingOuter).map s.withPaddingOuter).getD s
  s.withRound ((c.setting .round).getD s.round)

/-- A band or point scale. -/
def band (c : CompleteScaleConfig α) : Except (Problem α) (Band α) := c.bandStops.map c.spaced

/-- The ends of a numeric domain, those of the unit interval if there is none. -/
def extent (domain? : Option (List α)) : α × α :=
  match domain? with
  | some (start :: rest) => (start, (start :: rest).getLast (List.cons_ne_nil _ _))
  | _ => (0, 1)

/-- A quantize scale. -/
def quantize (c : CompleteScaleConfig α) (schemes : SchemeRegistry) : Except (Problem α) (Quantize α) := do
  let (start, stop) := extent (← c.numericDomain? false)
  let s : Quantize α := { start, stop, range := c.groupRange schemes unitRange }
  c.checkBins
  let s := match ← c.niceCount? with
    | some count => s.nice count
    | none => s
  return if ScaleOptions.isOn (c.setting .zero) then s.withZero else s

/-- An ordinal scale: with a range of its own, or on a color table. -/
def ordinal (c : CompleteScaleConfig α) : Except (Problem α) (ScalePlan α) := do
  let domain := (← c.discreteDomain?).getD []
  match c.setting .range with
  | some range => return .ordinal (.ofList domain range)
  | none => return .colors (c.setting .scheme) (c.setting .colorGroup) (.ofList domain)

/-- The plan of a config. -/
def plan (c : CompleteScaleConfig α) (schemes : SchemeRegistry) : Except (Problem α) (ScalePlan α) :=
  match c.family with
  | .ordinal => c.ordinal
  | .point | .band => return .alone (.band (← c.band))
  | .binOrdinal => do
    c.checkBins
    let boundaries := (← c.numericDomain? false).getD []
    return .alone (.binOrdinal { boundaries, range := c.groupRange schemes [] })
  | .quantize => return .alone (.quantize (← c.quantize schemes))
  | .quantile => do
    let sample := (← c.numericDomain? false).getD []
    return .alone (.quantile (.ofSample sample (c.groupRange schemes [])))
  | .threshold => do
    let thresholds := (← c.numericDomain? false).getD [1 / 2]
    return .alone (.threshold { thresholds, range := c.groupRange schemes unitRange })
  | .symlog => .error (.missingFeature .symlog)
  | .linear | .log | .pow | .sqrt | .time | .utc => return .alone (.continuous (← c.continuous schemes))

end CompleteScaleConfig

/-- Steps that share the state of a session and may fail; what was done before a failure stays. -/
abbrev Action (α : Type) [Scalar α] := ExceptT (Problem α) (StateM (Session α))

namespace CompleteScaleConfig

variable {α : Type} [Scalar α]

/-- The scale takes its colors from a shared table. -/
def sharesColors (c : CompleteScaleConfig α) : Bool :=
  c.family == .ordinal && (c.setting .range).isNone

/-- Requests the color table of a config that shares one. -/
def requestTable (c : CompleteScaleConfig α) : StateM (Session α) Unit :=
  if c.sharesColors then discard (Session.tableFor (c.setting .scheme) (c.setting .colorGroup))
  else pure ()

/-- The scale of a config, as part of the session. The table of shared colors is there even if the rest
of the config cannot be read. -/
def realize (c : CompleteScaleConfig α) : Action α (Scale α) := do
  c.requestTable
  let session ← get
  let plan ← (ExceptT.mk (pure (c.plan session.colors.schemes)) : Action α (ScalePlan α))
  plan.realize

end CompleteScaleConfig

end VisualEncoding
