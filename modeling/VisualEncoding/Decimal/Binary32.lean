import VisualEncoding.Decimal.Numeral

/-!
# Numerals in single precision

The single-precision number closest to a numeral, ties to the even mantissa. It is found from the
digits themselves: rounding to a double first and then to single precision can miss it.
-/

namespace VisualEncoding.Decimal

/-- Single precision. -/
def binary32 : BinaryFormat := ⟨0x800000, -149, 0x7F800000⟩

/-- The single-precision number nearest to `digits · 10 ^ exponent`. -/
def nearestSingle (digits : Nat) (exponent : Int) : Float32 :=
  Float32.ofBits (UInt32.ofNat (binary32.nearest digits exponent))

/-- The single-precision number nearest to a numeral. -/
def Numeral.toFloat32 : Numeral → Float32
  | .finite negative digits exponent =>
    if negative then -nearestSingle digits exponent else nearestSingle digits exponent
  | .infinite negative => Float32.ofBits (if negative then 0xFF800000 else 0x7F800000)
  | .notANumber => Float32.ofBits 0x7FC00000

end VisualEncoding.Decimal
