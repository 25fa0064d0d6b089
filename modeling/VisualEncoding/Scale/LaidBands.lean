import VisualEncoding.Scale.Band

/-!
# Bands that are laid out

Bands can be laid out once for each change of their parameters and asked for positions afterwards. The layout is
then kept beside the parameters, with the places of the categories by their keys.
-/

namespace VisualEncoding

variable {α : Type} [Scalar α]

/-- The places of categories by their keys. -/
def Categories.places (c : Categories α) : List (String × Nat) := c.values.zipIdx.map fun (v, i) => (v.key, i)

/-- A change of the parameters of bands. -/
inductive Band.Change (α : Type) [Scalar α] where
  | domain (values : List (Value α))
  | range (start stop : α)
  | reversed
  | align (share : α)
  | padding (padding : α)
  | paddingInner (padding : α)
  | paddingOuter (padding : α)
  | round (on : Bool)

/-- Changes a parameter. -/
def Band.change (s : Band α) : Band.Change α → Band α
  | .domain values => s.withDomain values
  | .range start stop => s.withRange start stop
  | .reversed => s.reversed
  | .align share => s.withAlign share
  | .padding padding => s.withPadding padding
  | .paddingInner padding => s.withPaddingInner padding
  | .paddingOuter padding => s.withPaddingOuter padding
  | .round on => s.withRound on

/-- Bands, the places of their categories, and the layout. -/
structure LaidBands (α : Type) [Scalar α] where
  bands : Band α
  places : List (String × Nat)
  layout : BandLayout α

namespace LaidBands

/-- A point scale or a band scale without categories. -/
def ofKind (isPoint : Bool) : LaidBands α :=
  let bands : Band α := .ofKind isPoint
  { bands, places := [], layout := bands.layout }

/-- Lays out the same categories by other parameters. -/
def relaid (s : LaidBands α) (bands : Band α) : LaidBands α := { s with bands, layout := bands.layout }

/-- Changes a parameter and lays the bands out again. A point scale has no inner padding to set and stays. -/
def change (s : LaidBands α) : Band.Change α → LaidBands α
  | .domain values =>
    let bands := s.bands.withDomain values
    { s.relaid bands with places := bands.domain.places }
  | .paddingInner padding => if s.bands.isPoint then s else s.relaid (s.bands.withPaddingInner padding)
  | c => s.relaid (s.bands.change c)

/-- The position of a category. -/
def apply (s : LaidBands α) (v : Value α) : Value α :=
  .ofNumber? ((s.places.lookup v.key).bind fun i => s.layout.positions[i]?)

end LaidBands

end VisualEncoding
