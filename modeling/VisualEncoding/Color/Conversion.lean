import VisualEncoding.Color.Basic
import VisualEncoding.Color.Precision

/-!
# Conversions between color spaces

A color has channels, which stand for amounts of light. From the light follow its coordinates in two
spaces: the lightness and the two opponent axes of the perceptual space and of the standard observer.
Axes can be given by an angle, the hue, and a distance, the chroma.
-/

namespace VisualEncoding.Color.Space

/-- Three coordinates. -/
abbrev Triple (α : Type) := α × α × α

variable {α : Type} [Precision α]

/-- The channels of a color. -/
@[specialize] def channels (c : Color) : Triple α :=
  (Precision.ofChannel c.red, Precision.ofChannel c.green, Precision.ofChannel c.blue)

/-- A color from its channels. -/
@[specialize] def ofChannels (r g b : α) : Color :=
  { red := Precision.toChannel r, green := Precision.toChannel g, blue := Precision.toChannel b }

/-! ## Linear light -/

/-- The light that a channel stands for. -/
@[specialize] def toLight (x : α) : α :=
  if Precision.lt 0.04045 x then Precision.pow ((x + 0.055) / 1.055) 2.4 else x / 12.92

/-- The channel of an amount of light. -/
@[specialize] def ofLight (x : α) : α :=
  if Precision.lt 0.0031308 x then 1.055 * Precision.pow x (1.0 / 2.4) - 0.055 else 12.92 * x

/-- The light of a color's channels. -/
@[specialize] def light (c : Color) : Triple α :=
  let (r, g, b) : Triple α := channels c
  (toLight r, toLight g, toLight b)

/-- A color from the light of its channels. -/
@[specialize] def ofLights (r g b : α) : Color := ofChannels (ofLight r) (ofLight g) (ofLight b)

/-! ## Perceptual lightness -/

/-- The lightness and axes of a color. -/
@[specialize] def toOklab (c : Color) : Triple α :=
  let (r, g, b) : Triple α := light c
  let l := Precision.cbrt (0.4122214708 * r + 0.5363325363 * g + 0.0514459929 * b)
  let m := Precision.cbrt (0.2119034982 * r + 0.6806995451 * g + 0.1073969566 * b)
  let s := Precision.cbrt (0.0883024619 * r + 0.2817188376 * g + 0.6299787005 * b)
  (0.2104542553 * l + 0.7936177850 * m - 0.0040720468 * s,
   1.9779984951 * l - 2.4285922050 * m + 0.4505937099 * s,
   0.0259040371 * l + 0.7827717662 * m - 0.8086757660 * s)

/-- The color of a lightness and axes. -/
@[specialize] def ofOklab (lightness a b : α) : Color :=
  let cube (x : α) : α := x * x * x
  let l := cube (lightness + 0.3963377774 * a + 0.2158037573 * b)
  let m := cube (lightness - 0.1055613458 * a - 0.0638541728 * b)
  let s := cube (lightness - 0.0894841775 * a - 1.2914855480 * b)
  ofLights (4.0767416621 * l - 3.3077115913 * m + 0.2309699292 * s)
    (-1.2684380046 * l + 2.6097574011 * m - 0.3413193965 * s)
    (-0.0041960863 * l - 0.7034186147 * m + 1.7076147010 * s)

/-! ## The standard observer -/

/-- The white that the axes of the standard observer are measured from. -/
@[specialize] def white : Triple α := (0.95047, 1.0, 1.08883)

/-- Compresses the ratio of a response to that of white. -/
@[specialize] def compress (x : α) : α :=
  if Precision.lt ((6.0 / 29.0) * (6.0 / 29.0) * (6.0 / 29.0)) x then Precision.cbrt x
  else 841.0 / 108.0 * x + 4.0 / 29.0

/-- Undoes `compress`. -/
@[specialize] def expand (x : α) : α :=
  if Precision.lt (6.0 / 29.0) x then x * x * x else 108.0 / 841.0 * (x - 4.0 / 29.0)

/-- The lightness and axes of a color. -/
@[specialize] def toLab (c : Color) : Triple α :=
  let (r, g, b) : Triple α := light c
  let (whiteX, whiteY, whiteZ) : Triple α := white
  let x := compress ((0.4124564 * r + 0.3575761 * g + 0.1804375 * b) / whiteX)
  let y := compress ((0.2126729 * r + 0.7151522 * g + 0.0721750 * b) / whiteY)
  let z := compress ((0.0193339 * r + 0.1191920 * g + 0.9503041 * b) / whiteZ)
  (116.0 * y - 16.0, 500.0 * (x - y), 200.0 * (y - z))

/-- The color of a lightness and axes. -/
@[specialize] def ofLab (lightness a b : α) : Color :=
  let (whiteX, whiteY, whiteZ) : Triple α := white
  let y := (lightness + 16.0) / 116.0
  let x := whiteX * expand (y + a / 500.0)
  let z := whiteZ * expand (y - b / 200.0)
  let y := whiteY * expand y
  ofLights (3.2404542 * x - 1.5371385 * y - 0.4985314 * z)
    (-0.9692660 * x + 1.8760108 * y + 0.0415560 * z)
    (0.0556434 * x - 0.2040259 * y + 1.0572252 * z)

/-! ## Hue and chroma -/

/-- A degree in radians. -/
@[specialize] def degree : α := 3.14159265358979323846 / 180.0

/-- A lightness and axes by lightness, chroma and hue in degrees. -/
@[specialize] def toPolar : Triple α → Triple α
  | (l, a, b) => (l, Precision.sqrt (a * a + b * b), Precision.atan2 b a / degree)

/-- A lightness, chroma and hue in degrees by lightness and axes. -/
@[specialize] def ofPolar : Triple α → Triple α
  | (l, chroma, hue) =>
    (l, chroma * Precision.cos (hue * degree), chroma * Precision.sin (hue * degree))

end VisualEncoding.Color.Space
