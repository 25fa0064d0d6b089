import VisualEncoding.Decimal.BinaryFormat

/-!
# Doubles as exact numbers

A finite double is `± mantissa · 2 ^ exponent`. `Exact.ofFloat` reads that off its bits, and `nearest`
goes the other way for a decimal number: the double closest to it, ties to the even mantissa.
-/

namespace VisualEncoding.Decimal

/-- What a double stands for. -/
inductive Exact where
  | finite (negative : Bool) (mantissa : Nat) (exponent : Int)
  | infinite (negative : Bool)
  | notANumber
  deriving Repr, DecidableEq

/-- The least mantissa of a normal number, `2 ^ 52`. -/
def leastNormal : Nat := 0x10000000000000

/-- The exact meaning of a double, from its sign, exponent and fraction bits. -/
def Exact.ofFloat (x : Float) : Exact :=
  let bits := x.toBits.toNat
  let negative := bits / 0x8000000000000000 == 1
  let biased := bits / leastNormal % 2048
  let fraction := bits % leastNormal
  if biased == 2047 then
    if fraction == 0 then .infinite negative else .notANumber
  else if biased == 0 then .finite negative fraction (-1074)
  else .finite negative (leastNormal + fraction) (Int.ofNat biased - 1075)

/-- Double precision. -/
def binary64 : BinaryFormat := ⟨leastNormal, -1074, 0x7FF0000000000000⟩

/-- The double nearest to `num / den`, for a positive denominator. -/
def nearestRatio (num den : Nat) : Float := Float.ofBits (UInt64.ofNat (binary64.nearestRatio num den))

/-- The double nearest to `digits · 10 ^ exponent`. -/
def nearest (digits : Nat) (exponent : Int) : Float :=
  Float.ofBits (UInt64.ofNat (binary64.nearest digits exponent))

end VisualEncoding.Decimal
