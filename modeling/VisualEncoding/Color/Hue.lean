import VisualEncoding.Decimal.Binary64
import VisualEncoding.Color.Conversion

/-!
# Colors by hue

A hue is an angle around the circle of pure colors, in degrees. The channels of a color with a hue lie
between a least and a greatest amount; where between, the angle says. Two more amounts next to the hue
tell these bounds: saturation and lightness, white and black, or saturation and brightness.
-/

namespace VisualEncoding.Color.Hue

open Space

/-! ## From the hue to the channels -/

/-- The remainder of a division by a positive whole number: exact, with the sign of the dividend, and
undefined if that is not finite. -/
def remainder (x : Float32) (n : Nat) : Float32 :=
  match Decimal.Exact.ofFloat x.toFloat with
  | .finite negative mantissa exponent =>
    let (up, down) := Decimal.powerRatio 2 exponent
    let rest := (Decimal.nearestRatio (mantissa * up % (n * down)) down).toFloat32
    if negative then -rest else rest
  | _ => Float32.ofBits 0x7FC00000

/-- An angle brought into the first turn. -/
def firstTurn (hue : Float32) : Float32 :=
  let rest := remainder hue 360
  if rest < 0 then rest + 360 else rest

/-- The channel that lies at an angle, counted in sixths of the circle from where it starts to rise. -/
def channelAt (least most sixth : Float32) : Float32 :=
  let h := remainder (remainder sixth 6 + 6) 6
  if h < 1 then least + (most - least) * h
  else if h < 3 then most
  else if h < 4 then least + (most - least) * (4 - h)
  else least

/-- The color of a hue, saturation and lightness. -/
def ofHsl (hue saturation lightness : Float32) : Color :=
  if saturation == 0 then { red := lightness, green := lightness, blue := lightness }
  else
    let most :=
      if lightness < 0.5 then lightness * (1 + saturation)
      else lightness + saturation - lightness * saturation
    let least := 2 * lightness - most
    let sixth := firstTurn hue / 60
    { red := clampUnit (channelAt least most (sixth + 2))
      green := clampUnit (channelAt least most sixth)
      blue := clampUnit (channelAt least most (sixth - 2)) }

/-- The color of a hue with amounts of white and black mixed in. -/
def ofHwb (hue white black : Float32) : Color :=
  if 1 ≤ white + black then
    let gray := white / (white + black)
    { red := gray, green := gray, blue := gray }
  else
    let pure := ofHsl hue 1 0.5
    let mixed (x : Float32) : Float32 := clampUnit (x * (1 - white - black) + white)
    { red := mixed pure.red, green := mixed pure.green, blue := mixed pure.blue }

/-- The color of a hue, saturation and brightness. -/
def ofHsv (hue saturation brightness : Float32) : Color :=
  let lightness := (2 - saturation) * brightness / 2
  let inHsl :=
    if lightness == 0 then saturation
    else if lightness == 1 then 0
    else if lightness < 0.5 then saturation * brightness / (lightness * 2)
    else saturation * brightness / (2 - lightness * 2)
  ofHsl hue inHsl lightness

/-! ## From the channels to the hue -/

/-- The least channel. -/
def least (c : Color) : Float32 := min c.red (min c.green c.blue)

/-- The greatest channel. -/
def most (c : Color) : Float32 := max c.red (max c.green c.blue)

/-- The hue of a color; a gray has hue zero. -/
def angle (c : Color) : Float32 :=
  let spread := most c - least c
  if spread == 0 then 0
  else
    let below (x : Float32) : Float32 := (most c - x) / spread
    let sixth :=
      if c.red == most c then below c.blue - below c.green
      else if c.green == most c then 2 + below c.red - below c.blue
      else 4 + below c.green - below c.red
    firstTurn (sixth * 60)

/-- The hue, saturation and lightness of a color. -/
def toHsl (c : Color) : Triple Float32 :=
  let sum := most c + least c
  let spread := most c - least c
  let saturation :=
    if spread == 0 then 0
    else if sum / 2 < 0.5 then spread / sum
    else spread / (2 - most c - least c)
  (angle c, saturation, sum / 2)

/-- The hue of a color and its amounts of white and black. -/
def toHwb (c : Color) : Triple Float32 := (angle c, least c, 1 - most c)

/-- The hue, saturation and brightness of a color. -/
def toHsv (c : Color) : Triple Float32 :=
  let spread := most c - least c
  (angle c, if spread == 0 then 0 else spread / most c, most c)

end VisualEncoding.Color.Hue
