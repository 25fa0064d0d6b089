/-!
# Precision

Colors are read in single precision and blended in double precision. A conversion between color spaces
is written once, over any type of numbers that has the arithmetic it needs.
-/

namespace VisualEncoding.Color

/-- Numbers in which colors are converted. -/
class Precision (α : Type) extends Add α, Sub α, Mul α, Div α, Neg α, OfScientific α where
  /-- Whether one number is less than another; no number is less than an undefined one. -/
  lt : α → α → Bool
  pow : α → α → α
  sqrt : α → α
  cbrt : α → α
  sin : α → α
  cos : α → α
  /-- The angle of a point by its second and its first coordinate. -/
  atan2 : α → α → α
  /-- A channel of a color. -/
  ofChannel : Float32 → α
  /-- The nearest channel. -/
  toChannel : α → Float32

instance Precision.instDouble : Precision Float where
  lt x y := x < y
  pow := Float.pow
  sqrt := Float.sqrt
  cbrt := Float.cbrt
  sin := Float.sin
  cos := Float.cos
  atan2 := Float.atan2
  ofChannel := Float32.toFloat
  toChannel := Float.toFloat32

instance Precision.instSingle : Precision Float32 where
  lt x y := x < y
  pow := Float32.pow
  sqrt := Float32.sqrt
  cbrt := Float32.cbrt
  sin := Float32.sin
  cos := Float32.cos
  atan2 := Float32.atan2
  ofChannel := id
  toChannel := id

end VisualEncoding.Color
