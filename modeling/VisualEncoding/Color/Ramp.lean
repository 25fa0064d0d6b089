import VisualEncoding.Color.Space
import VisualEncoding.Color.Css
import VisualEncoding.Scalar.Basic

/-!
# Color ramps

A ramp is a list of stops that are blended pairwise, or all along at a position from 0 to 1.
-/

namespace VisualEncoding

/-- Stops of color and the space in which they are blended. -/
structure ColorRamp where
  stops : List Color
  space : ColorSpace
  stops_ne_nil : stops ≠ []

namespace ColorRamp

/-- The number of stops. -/
def length (r : ColorRamp) : Nat := r.stops.length

/-- A stop; beyond the last one the last. -/
def stop (r : ColorRamp) (i : Nat) : Color :=
  r.stops[i]?.getD (r.stops.getLast r.stops_ne_nil)

/-- The ramp in another space. -/
def withSpace (r : ColorRamp) (space : ColorSpace) : ColorRamp := { r with space }

/-- The ramp from its last stop to its first. -/
def reversed (r : ColorRamp) : ColorRamp where
  stops := r.stops.reverse
  space := r.space
  stops_ne_nil := by simpa using r.stops_ne_nil

/-- The stops as text. -/
def colors (r : ColorRamp) : List String := r.stops.map Color.toHex

/-- A ramp of written colors; the text that is no color is reported. -/
def ofTexts? (texts : List String) (space : ColorSpace) :
    Except (String × ColorFault) (Option ColorRamp) := do
  let stops ← texts.mapM fun s => (Color.read s).mapError fun fault => (s, fault)
  return if h : stops = [] then none else some { stops, space, stops_ne_nil := h }

variable {α : Type} [Scalar α]

/-- The blend of two stops at a fraction of the way. -/
def mix (r : ColorRamp) (i j : Nat) (t : α) : String :=
  (Color.blend r.space (r.stop i) (r.stop j) (Scalar.toSingle t)).toHex

/-- The color at a position from 0 to 1 along all stops. -/
def colorAt (r : ColorRamp) (t : α) : String :=
  let segments := r.length - 1
  if segments = 0 then (r.stop 0).toHex
  else
    let scaled := Scalar.clamp 0 1 t * Scalar.ofInt segments
    let segment := (Scalar.truncateWithin 0 (segments - 1 : Nat) (Scalar.floor scaled)).toNat
    r.mix segment (segment + 1) (scaled - Scalar.ofInt segment)

/-- Evenly spaced colors from the first stop to the last. -/
def sample (α : Type) [Scalar α] (r : ColorRamp) (count : Nat) : List String :=
  if count = 1 then [r.colorAt (0 : α)]
  else (List.range count).map fun i : Nat =>
    r.colorAt (Scalar.ofInt i / Scalar.ofInt (count - 1 : Nat) : α)

end ColorRamp

end VisualEncoding
