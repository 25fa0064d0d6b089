import VisualEncoding.Decimal.Rounding

/-!
# Rounding to a binary format

A binary format holds numbers `mantissa · 2 ^ exponent` with a mantissa of limited size. Its bits, read
as a natural number, count the numbers of the format upwards from zero to infinity. Here a ratio of
natural numbers or a decimal number is rounded to a format, ties to the even mantissa.
-/

namespace VisualEncoding.Decimal

/-- A binary format. -/
structure BinaryFormat where
  /-- The least mantissa of a normal number, a power of two; all mantissas are less than twice as large. -/
  leastNormal : Nat
  /-- The least exponent, at which mantissas may be smaller. -/
  leastExponent : Int
  /-- The bits of infinity. -/
  infinity : Nat
  deriving Repr, DecidableEq

namespace BinaryFormat

/-- The bits of the number with a mantissa and an exponent. A mantissa that rounding made too large
counts on into the next exponent, and what lies beyond the largest number is infinite. -/
def bits (f : BinaryFormat) (mantissa : Nat) (exponent : Int) : Nat :=
  min ((exponent - f.leastExponent).toNat * f.leastNormal + mantissa) f.infinity

/-- The least exponent of the format at which `num / den` has a mantissa that is small enough. -/
def fittingExponent (f : BinaryFormat) (num den : Nat) : Int :=
  let limit := 2 * f.leastNormal
  let guess := Int.ofNat num.log2 - Int.ofNat den.log2 - Int.ofNat limit.log2
  let fits (e : Int) : Bool := num * (powerRatio 2 e).2 < den * (powerRatio 2 e).1 * limit
  max f.leastExponent (if fits guess then guess else guess + 1)

/-- The bits of the number nearest to `num / den`, for a positive denominator. -/
def nearestRatio (f : BinaryFormat) (num den : Nat) : Nat :=
  if num == 0 then 0
  else
    let e := f.fittingExponent num den
    f.bits (roundHalfEven (num * (powerRatio 2 e).2) (den * (powerRatio 2 e).1)) e

/-- The bits of the number nearest to `digits · 10 ^ exponent`, in a format of 64 bits at most. Numbers
far beyond its range are decided by their size alone. -/
def nearest (f : BinaryFormat) (digits : Nat) (exponent : Int) : Nat :=
  if digits == 0 then 0
  else if 310 < exponent + digitCount digits then f.infinity
  else if exponent + digitCount digits < -330 then 0
  else f.nearestRatio (digits * (powerRatio 10 exponent).1) (powerRatio 10 exponent).2

end BinaryFormat

end VisualEncoding.Decimal
