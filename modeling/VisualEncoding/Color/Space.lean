import VisualEncoding.Color.Conversion

/-!
# Color spaces

A blend of two colors depends on the space in which the way between them is straight. Spaces with a hue
go along the shorter arc.
-/

namespace VisualEncoding

/-- The spaces in which colors are blended. -/
inductive ColorSpace where
  /-- Perceptual lightness and two opponent axes. -/
  | oklab
  /-- The channels themselves, raised to an exponent. -/
  | rgb (gamma : Float32)
  /-- Lightness and two opponent axes of the standard observer. -/
  | lab
  /-- The same by hue and chroma. -/
  | hcl
  /-- Hue, saturation and lightness. -/
  | hsl
  deriving Repr, BEq, Inhabited

namespace Color.Space

/-- The lightness, chroma and hue in degrees of a color, as the standard observer sees it. -/
def toHcl (c : Color) : Triple Float := toPolar (toLab c)

/-- The color of a lightness, chroma and hue in degrees. -/
def ofHcl (lightness chroma hue : Float) : Color :=
  let (l, a, b) := ofPolar (lightness, if chroma < 0 then 0 else chroma, hue)
  ofLab l a b

/-! ## Hue, saturation and lightness -/

/-- The hue in degrees, saturation and lightness of a color. A gray has hue zero. -/
def toHsl (c : Color) : Triple Float :=
  let (r, g, b) : Triple Float := channels c
  let most := max r (max g b)
  let least := min r (min g b)
  let spread := most - least
  let hue :=
    if spread == 0 then 0
    else if most == r then 60 * ((g - b) / spread)
    else if most == g then 60 * ((b - r) / spread + 2)
    else 60 * ((r - g) / spread + 4)
  let sum := most + least
  let saturation := if spread == 0 then 0 else if 1 < sum then spread / (2 - sum) else spread / sum
  (hue, saturation, sum / 2)

/-- The remainder of a division, with the sign of the divisor. -/
def modulo (x y : Float) : Float := x - y * (x / y).floor

/-- The color of a hue in degrees, saturation and lightness. -/
def ofHsl (hue saturation lightness : Float) : Color :=
  let chroma := (1 - (2 * lightness - 1).abs) * saturation
  let sector := modulo hue 360 / 60
  let second := chroma * (1 - (modulo sector 2 - 1).abs)
  let least := lightness - chroma / 2
  let (r, g, b) :=
    if sector < 1 then (chroma, second, 0)
    else if sector < 2 then (second, chroma, 0)
    else if sector < 3 then (0, chroma, second)
    else if sector < 4 then (0, second, chroma)
    else if sector < 5 then (second, 0, chroma)
    else (chroma, 0, second)
  ofChannels (r + least) (g + least) (b + least)

/-! ## Blending -/

/-- The point at a fraction of the way from one number to another. -/
def lerp (x y t : Float) : Float := x + (y - x) * t

/-- The hue at a fraction of the shorter arc from one hue to another, in degrees. -/
def lerpHue (x y t : Float) : Float :=
  let d := y - x
  x + (d - 360 * ((d + 180) / 360 - 1).ceil) * t

/-- A channel of a blend of channels raised to an exponent. -/
def lerpGamma (gamma x y t : Float32) : Float32 :=
  if (gamma - 1).abs < Float32.ofBits 0x34000000 then x + (y - x) * t
  else
    let x := x.pow gamma
    let y := y.pow gamma
    (x + (y - x) * t).pow (1 / gamma)

end Color.Space

namespace Color

open Space

/-- The color at a fraction of the way from one color to another. -/
def blend (space : ColorSpace) (a b : Color) (t : Float32) : Color :=
  let u := (clampUnit t).toFloat
  match space with
  | .oklab =>
    let (l, x, y) : Triple Float := toOklab a
    let (l', x', y') : Triple Float := toOklab b
    ofOklab (lerp l l' u) (lerp x x' u) (lerp y y' u)
  | .lab =>
    let (l, x, y) : Triple Float := toLab a
    let (l', x', y') : Triple Float := toLab b
    ofLab (lerp l l' u) (lerp x x' u) (lerp y y' u)
  | .hcl =>
    let (l, c, h) := toHcl a
    let (l', c', h') := toHcl b
    ofHcl (lerp l l' u) (lerp c c' u) (lerpHue h h' u)
  | .hsl =>
    let (h, s, l) := toHsl a
    let (h', s', l') := toHsl b
    ofHsl (lerpHue h h' u) (lerp s s' u) (lerp l l' u)
  | .rgb gamma =>
    { red := lerpGamma gamma a.red b.red t
      green := lerpGamma gamma a.green b.green t
      blue := lerpGamma gamma a.blue b.blue t }

end Color

end VisualEncoding
