import VisualEncoding.Value.Categories
import VisualEncoding.Scale.Family

/-!
# Band and point scales

A band scale cuts an interval into bands of equal width, one for each category, with paddings between
and around them. A point scale is a band scale whose inner padding is the whole step, so that each band
shrinks to a position. The layout is computed from the parameters whenever it is asked for.

The rules for step, width, paddings and alignment are those that the specification asks for in §4.5.
`LaidBands` keeps the layout beside the parameters and makes it anew with each change; that no change leaves
it stale is proved in `Proofs/Scale/KeptLayout`.
-/

namespace VisualEncoding

/-- The parameters of a band or point scale. -/
structure Band (α : Type) [Scalar α] where
  /-- Whether the inner padding is fixed at the whole step. -/
  isPoint : Bool
  domain : Categories α := .empty
  start : α := 0
  stop : α := 1
  paddingInner : α := if isPoint then 1 else 0
  paddingOuter : α := 0
  /-- The share of the free space that lies before the first band. -/
  align : α := Scalar.ofInt 1 / Scalar.ofInt 2
  round : Bool := false

/-- Where the bands lie: the distance between two bands, the width of a band, and the positions of the
bands in the order of the domain. -/
structure BandLayout (α : Type) where
  step : α
  bandwidth : α
  positions : List α

namespace Band

variable {α : Type} [Scalar α]

/-- A point scale or a band scale without categories. -/
def ofKind (isPoint : Bool) : Band α := { isPoint }

/-- The family. -/
def family (s : Band α) : ScaleFamily := if s.isPoint then .point else .band

/-! ## Setting parameters -/

/-- Takes the categories of a list as the domain. -/
def withDomain (s : Band α) (values : List (Value α)) : Band α := { s with domain := .ofList values }

/-- Takes an interval as the range. -/
def withRange (s : Band α) (start stop : α) : Band α := { s with start, stop }

/-- Swaps the ends of the range. -/
def reversed (s : Band α) : Band α := { s with start := s.stop, stop := s.start }

/-- Sets the share of the free space before the first band. -/
def withAlign (s : Band α) (align : α) : Band α := { s with align := Scalar.clamp 0 1 align }

/-- Sets the inner padding of a band scale, a share of the step. -/
def withPaddingInner (s : Band α) (padding : α) : Band α :=
  if s.isPoint then s else { s with paddingInner := Scalar.least padding 1 }

/-- Sets the outer padding, in steps. -/
def withPaddingOuter (s : Band α) (padding : α) : Band α := { s with paddingOuter := padding }

/-- Sets both paddings. -/
def withPadding (s : Band α) (padding : α) : Band α :=
  (s.withPaddingInner padding).withPaddingOuter padding

/-- Sets whether positions and widths are whole numbers. -/
def withRound (s : Band α) (round : Bool) : Band α := { s with round }

/-! ## Layout -/

/-- The layout of `n` bands in an ascending interval. -/
def ascendingLayout (s : Band α) (lo hi : α) : BandLayout α :=
  let n : α := Scalar.ofInt s.domain.size
  let step := (hi - lo) / Scalar.greatest (n - s.paddingInner + s.paddingOuter * 2) 1
  let step := if s.round then Scalar.floor step else step
  let first := lo + (hi - lo - step * (n - s.paddingInner)) * s.align
  let bandwidth := step * (1 - s.paddingInner)
  let first := if s.round then Scalar.round first else first
  { step
    bandwidth := if s.round then Scalar.round bandwidth else bandwidth
    positions := (List.range s.domain.size).map fun i : Nat => first + step * Scalar.ofInt i }

/-- The layout; in a descending interval the last category comes first. -/
def layout (s : Band α) : BandLayout α :=
  if s.stop < s.start then
    let l := s.ascendingLayout s.stop s.start
    { l with positions := l.positions.reverse }
  else s.ascendingLayout s.start s.stop

/-- The position of a category, in a layout. -/
def positionIn (s : Band α) (l : BandLayout α) (v : Value α) : Value α :=
  .ofNumber? ((s.domain.position? v.key).bind fun i => l.positions[i]?)

/-- The position of a category. -/
def apply (s : Band α) (v : Value α) : Value α := s.positionIn s.layout v

/-- The range. -/
def range (s : Band α) : List (Value α) := [.number s.start, .number s.stop]

end Band

end VisualEncoding
