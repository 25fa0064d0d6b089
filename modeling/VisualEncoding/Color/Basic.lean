/-!
# Colors

A color has three channels in single precision, from nothing to full strength. It is written as a
hash sign and two hexadecimal digits for each channel.
-/

namespace VisualEncoding

/-- A color by its channels. -/
structure Color where
  red : Float32
  green : Float32
  blue : Float32
  deriving Repr, BEq, Inhabited

namespace Color

/-- Moves a channel into the range from 0 to 1. -/
def clampUnit (x : Float32) : Float32 :=
  let x := if x < 0 then 0 else x
  if 1 < x then 1 else x

/-- The byte nearest to a channel; an undefined channel counts as zero. -/
def channelByte (x : Float32) : Nat := (clampUnit x * 255).round.toUInt8.toNat

/-- Two hexadecimal digits of a byte. -/
def hexDigits (n : Nat) : List Char := [Nat.digitChar (n / 16), Nat.digitChar (n % 16)]

/-- A color as `#rrggbb`. -/
def toHex (c : Color) : String :=
  String.ofList ('#' :: hexDigits (channelByte c.red) ++ hexDigits (channelByte c.green) ++
    hexDigits (channelByte c.blue))

/-- A color from its channels as bytes. -/
def ofBytes (red green blue : Nat) : Color :=
  { red := (UInt8.ofNat red).toFloat32 / 255
    green := (UInt8.ofNat green).toFloat32 / 255
    blue := (UInt8.ofNat blue).toFloat32 / 255 }

end Color

end VisualEncoding
