import VisualEncoding.Color.Hue

/-!
# Color models

A color model names three coordinates and says what each of them measures, so that texts can give a
color by them. It converts coordinates to a color and back.
-/

namespace VisualEncoding

open Color.Space

/-- What a coordinate measures, and so how numbers and percentages stand for it. -/
inductive Measure where
  /-- The strength of a channel, in numbers up to 255. -/
  | channel
  /-- A share of the whole. -/
  | share
  /-- An angle in degrees. -/
  | hue
  /-- A place on an axis on which all is `whole`. -/
  | axis (whole : Float32)

/-- The number that stands for a coordinate of one in formulas. -/
def Measure.unit : Measure → Float32
  | .channel => 255
  | .share => 100
  | .hue => 1
  | .axis _ => 1

/-- A way to give a color by three coordinates. -/
structure ColorModel where
  /-- What messages call the model. -/
  name : String
  /-- The names of the coordinates and what they measure. -/
  coordinates : Triple (String × Measure)
  ofColor : Color → Triple Float32
  toColor : Triple Float32 → Color

namespace ColorModel

/-- Moves a coordinate up to zero if it is below. -/
def notNegative (x : Float32) : Float32 := if x < 0 then 0 else x

/-- Red, green and blue. -/
def rgb : ColorModel where
  name := "rgb"
  coordinates := (("r", .channel), ("g", .channel), ("b", .channel))
  ofColor c := (c.red, c.green, c.blue)
  toColor := fun (r, g, b) =>
    { red := Color.clampUnit r, green := Color.clampUnit g, blue := Color.clampUnit b }

/-- Hue, saturation and lightness. -/
def hsl : ColorModel where
  name := "hsl"
  coordinates := (("h", .hue), ("s", .share), ("l", .share))
  ofColor := Color.Hue.toHsl
  toColor := fun (h, s, l) => Color.Hue.ofHsl h (Color.clampUnit s) (Color.clampUnit l)

/-- Hue, white and black. -/
def hwb : ColorModel where
  name := "hwb"
  coordinates := (("h", .hue), ("w", .share), ("b", .share))
  ofColor := Color.Hue.toHwb
  toColor := fun (h, w, b) => Color.Hue.ofHwb h (Color.clampUnit w) (Color.clampUnit b)

/-- Hue, saturation and brightness. -/
def hsv : ColorModel where
  name := "hsv"
  coordinates := (("h", .hue), ("s", .share), ("v", .share))
  ofColor := Color.Hue.toHsv
  toColor := fun (h, s, v) => Color.Hue.ofHsv h (Color.clampUnit s) (Color.clampUnit v)

/-- Lightness and axes of the standard observer. -/
def lab : ColorModel where
  name := "lab"
  coordinates := (("l", .axis 100), ("a", .axis 125), ("b", .axis 125))
  ofColor := toLab
  toColor := fun (l, a, b) => ofLab (notNegative l) a b

/-- Perceptual lightness and axes. -/
def oklab : ColorModel where
  name := "oklab"
  coordinates := (("l", .axis 1), ("a", .axis 0.4), ("b", .axis 0.4))
  ofColor := toOklab
  toColor := fun (l, a, b) => ofOklab (notNegative l) a b

/-- A model with axes by chroma and hue. -/
def polar (axes : ColorModel) (name : String) (lightness chroma : Float32) : ColorModel where
  name
  coordinates := (("l", .axis lightness), ("c", .axis chroma), ("h", .hue))
  ofColor c :=
    let (l, chroma, hue) := toPolar (axes.ofColor c)
    (l, chroma, Color.Hue.firstTurn hue)
  toColor := fun (l, chroma, hue) => axes.toColor (ofPolar (l, notNegative chroma, hue))

/-- The models by the names of the functions that give a color in them. -/
def functions : List (String × ColorModel) :=
  let lch := polar lab "lch" 100 150
  let oklch := polar oklab "oklch" 1 0.4
  [("rgb", rgb), ("rgba", rgb), ("hsl", hsl), ("hsla", hsl), ("hwb", hwb), ("hwba", hwb),
   ("hsv", hsv), ("hsva", hsv), ("lab", lab), ("lch", lch), ("oklab", oklab), ("oklch", oklch)]

end ColorModel

end VisualEncoding
