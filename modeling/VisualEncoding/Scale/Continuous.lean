import VisualEncoding.Calendar.Interval
import VisualEncoding.Color.Ramp
import VisualEncoding.Order.Bisect
import VisualEncoding.Scale.Discretizing
import VisualEncoding.Scale.Family
import VisualEncoding.Ticks.Log

/-!
# Continuous scales

A continuous scale has a domain of stops, each of which has a stop of the range; between two
neighbouring stops it interpolates, beyond the last ones it goes on along the last piece. Distances in
the domain are measured after a transform. Spans of time are domains in milliseconds.

These are the continuous families of the specification, §4.5, with piecewise domains. Notes:
- the transforms of the stops are taken whenever a number is mapped, and nothing is kept between two calls;
- `symlog` has no transform, because no scale of that family is ever realized;
- `nice` and `ticks` can fail on a span of time, at a calendar step without a result.
-/

namespace VisualEncoding

variable {α : Type} [Scalar α]

/-- What distances in a domain are measured by. -/
inductive Transform (α : Type) where
  | identity
  | log (base : α)
  | pow (exponent : α)
  deriving Repr

/-- The stops of a range: numbers or colors. -/
inductive OutputRange (α : Type) where
  | numbers (stops : List α)
  | colors (ramp : ColorRamp)

namespace OutputRange

/-- The number of stops. -/
def length : OutputRange α → Nat
  | .numbers stops => stops.length
  | .colors ramp => ramp.length

/-- The stops in reverse. -/
def reversed : OutputRange α → OutputRange α
  | .numbers stops => .numbers stops.reverse
  | .colors ramp => .colors ramp.reversed

/-- The stops as values. -/
def values : OutputRange α → List (Value α)
  | .numbers stops => stops.map .number
  | .colors ramp => ramp.colors.map .string

/-- The first stop. -/
def first : OutputRange α → Value α
  | .numbers stops => .ofNumber? stops.head?
  | .colors ramp => .string (ramp.mix 0 0 (0 : α))

end OutputRange

/-- A power that keeps the sign of its base. -/
def signedPow (x exponent : α) : α :=
  if x < 0 then -Scalar.pow (-x) exponent else Scalar.pow x exponent

/-- The fraction of the way from `a` to `b` at which `x` lies; the middle if there is no way. -/
def fractionBetween (a b x : α) : α := if b == a then 1 / 2 else (x - a) / (b - a)

/-- The piece between neighbouring ones of ascending stops that a number belongs to: its index, the
stops at its ends and the fraction of the way between them. -/
structure Piece (α : Type) where
  index : Nat
  low : α
  high : α
  fraction : α

/-- The piece that a number belongs to; the first and the last piece reach beyond the ends. -/
def pieceOf? (stops : List α) (x : α) : Option (Piece α) := do
  let i := Order.countUpTo stops.tail.dropLast x
  let low ← stops[i]?
  let high ← stops[i + 1]?
  return { index := i, low, high, fraction := fractionBetween low high x }

/-- A continuous scale. -/
structure Continuous (α : Type) where
  family : ScaleFamily
  transform : Transform α
  domain : List α
  range : OutputRange α
  clamp : Bool := false
  round : Bool := false

namespace Continuous

/-- A scale from the unit interval to the unit interval. -/
def ofFamily (family : ScaleFamily) (transform : Transform α) : Continuous α :=
  { family, transform, domain := [0, 1], range := .numbers [0, 1] }

/-! ## Setting parameters -/

/-- Takes stops as the domain. -/
def withDomain (s : Continuous α) (domain : List α) : Continuous α := { s with domain }

/-- Takes stops as the range. -/
def withRange (s : Continuous α) (range : OutputRange α) : Continuous α := { s with range }

/-- Reverses the stops of the range. -/
def reversed (s : Continuous α) : Continuous α := { s with range := s.range.reversed }

/-- Sets whether numbers outside the domain count as its ends. -/
def withClamp (s : Continuous α) (clamp : Bool) : Continuous α := { s with clamp }

/-- Sets whether numbers are rounded to whole ones. -/
def withRound (s : Continuous α) (round : Bool) : Continuous α := { s with round }

/-- Sets the space in which the colors of a range are blended. -/
def withSpace (s : Continuous α) (space : ColorSpace) : Continuous α :=
  match s.range with
  | .colors ramp => { s with range := .colors (ramp.withSpace space) }
  | .numbers _ => s

/-! ## The transform -/

/-- Whether a log scale measures by magnitude, because its domain starts below zero. -/
def isReflected (s : Continuous α) : Bool := s.domain.head?.any fun d => decide (d < 0)

/-- The transform of a number. -/
def forward (s : Continuous α) (x : α) : α :=
  match s.transform with
  | .identity => x
  | .log base => Scalar.reflectedLog base s.isReflected x
  | .pow exponent => signedPow x exponent

/-- The number with a transform. -/
def backward (s : Continuous α) (t : α) : α :=
  match s.transform with
  | .identity => t
  | .log base => Scalar.reflectedExp base s.isReflected t
  | .pow exponent => signedPow t (1 / exponent)

/-! ## Mapping -/

/-- The number of stops that have a counterpart. -/
def stopCount (s : Continuous α) : Nat := min s.domain.length s.range.length

/-- The transforms of the stops of the domain that have a counterpart. -/
def domainStops (s : Continuous α) : List α := (s.domain.take s.stopCount).map s.forward

/-- Whether a list of stops descends from its first to its last. -/
def descends (stops : List α) : Bool :=
  match stops.head?, stops.getLast? with
  | some first, some last => decide (last < first)
  | _, _ => false

/-- A number moved to the nearest end of ascending stops, if the scale clamps. -/
def clampTo (s : Continuous α) (stops : List α) (x : α) : α :=
  match s.clamp, stops.head?, stops.getLast? with
  | true, some first, some last => Scalar.clamp first last x
  | _, _, _ => x

/-- The value between two slots of the range at a fraction of the way. A domain of two stops spreads
over all the colors of a ramp. -/
def valueBetween (s : Continuous α) (i j : Nat) (u : α) : Value α :=
  match s.range with
  | .numbers stops =>
    match stops[i]?, stops[j]? with
    | some r, some r' =>
      let y := r + (r' - r) * u
      let y := if s.round then Scalar.round y else y
      if Scalar.isFinite y then .number y else .null
    | _, _ => .null
  | .colors ramp =>
    if !Scalar.isFinite u then .null
    else
      let u := Scalar.clamp 0 1 u
      if s.domain.length = 2 ∧ 2 < ramp.length then
        .string (ramp.colorAt (if j < i then 1 - u else u))
      else .string (ramp.mix i j u)

/-- The value for a transformed number, by at least two stops. -/
def mapTransformed (s : Continuous α) (t : α) : Value α :=
  let stops := s.domainStops
  if stops.any (fun d => !Scalar.isFinite d) || Scalar.isNaN t then .null
  else
    let flipped := descends stops
    let stops := if flipped then stops.reverse else stops
    match pieceOf? stops (s.clampTo stops t) with
    | some p =>
      let last := s.stopCount - 1
      if flipped then s.valueBetween (last - p.index) (last - (p.index + 1)) p.fraction
      else s.valueBetween p.index (p.index + 1) p.fraction
    | none => .null

/-- The value for a number. -/
def map (s : Continuous α) (x : α) : Value α :=
  match s.stopCount with
  | 0 => .null
  | 1 => s.range.first
  | _ => s.mapTransformed (s.forward x)

/-- The number that is mapped to a number, if the range is numeric. -/
def invert (s : Continuous α) (y : α) : Option α :=
  match s.range with
  | .colors _ => none
  | .numbers outputs =>
    let outputs := outputs.take s.stopCount
    let flipped := descends outputs
    let stops := if flipped then s.domainStops.reverse else s.domainStops
    let outputs := if flipped then outputs.reverse else outputs
    (pieceOf? outputs (s.clampTo outputs y)).bind fun p => do
      let a ← stops[p.index]?
      let b ← stops[p.index + 1]?
      let x := s.backward (a + (b - a) * p.fraction)
      if Scalar.isFinite x then some x else none

/-! ## Moving the ends of the domain -/

/-- The zone on whose clock time is read. -/
def zone (s : Continuous α) : Calendar.Zone := Calendar.Zone.ofLocal (s.family == .time)

/-- The domain with its first and last stop replaced by what `move` makes of them; a domain of fewer
than two stops stays. -/
def moveEnds (s : Continuous α) (move : α → α → Except Calendar.IntervalFault (α × α)) :
    Except Calendar.IntervalFault (Continuous α) :=
  match s.domain with
  | start :: second :: rest => do
    let (start, stop) ← move start ((second :: rest).getLast (List.cons_ne_nil _ _))
    return { s with domain := start :: (second :: rest).dropLast ++ [stop] }
  | _ => return s

/-- Moves the ends of the domain outward to round values. -/
def nice (s : Continuous α) (count : Nat) : Except Calendar.IntervalFault (Continuous α) :=
  s.moveEnds fun start stop =>
    if s.family.isTime then Calendar.niceSpan s.zone start stop count
    else match s.transform with
      | .log base => .ok (Ticks.niceLog start stop base)
      | _ => .ok (Ticks.niceLinear start stop count)

/-- The domain with its ends moved outward to take in zero. -/
def zeroDomain : List α → List α
  | start :: second :: rest =>
    let (start, stop) := includeZero start ((second :: rest).getLast (List.cons_ne_nil _ _))
    start :: (second :: rest).dropLast ++ [stop]
  | domain => domain

/-- Moves the ends of the domain outward to take in zero. -/
def withZero (s : Continuous α) : Continuous α := { s with domain := zeroDomain s.domain }

/-! ## Values and ticks -/

/-- About `count` ticks in the domain. -/
def tickNumbers (s : Continuous α) (count : Nat) : Except Calendar.IntervalFault (List α) :=
  match s.domain.head?, s.domain.getLast? with
  | some start, some stop =>
    if s.family.isTime then Calendar.spanTicks s.zone start stop count
    else match s.transform with
      | .log base => .ok (Ticks.log start stop base count)
      | _ => .ok (Ticks.linear start stop count)
  | _, _ => .ok []

/-- A number of the domain as a value: an instant on a span of time. -/
def toValue (s : Continuous α) (x : α) : Value α :=
  if s.family.isTime then
    match Calendar.Interval.instantOf? x with
    | some t => .dateTime t
    | none => .null
  else .number x

/-- A value as a number of the domain. -/
def ofValue? (s : Continuous α) (v : Value α) : Option α :=
  if s.family.isTime then v.toInstant?.map fun t => Scalar.ofInt t.millis else v.toNumber?

/-- The value for a value. -/
def apply (s : Continuous α) (v : Value α) : Value α := ((s.ofValue? v).map s.map).getD .null

/-- The domain as values. -/
def domainValues (s : Continuous α) : List (Value α) := s.domain.map s.toValue

/-- About `count` ticks in the domain as values. -/
def ticks (s : Continuous α) (count : Nat) : Except Calendar.IntervalFault (List (Value α)) := do
  return (← s.tickNumbers count).map s.toValue

end Continuous

end VisualEncoding
