import Mathlib
import VisualEncoding.Proofs.Scalar.Parts

/-!
# What doubles stand for

A finite double stands for a rational number (`value`), its mantissa times a power of two. The parts that are read off
its bits are those of its model (`Exact.ofFloat_eq`), so that rounding by them is rounding of that number:

> `isNearest_roundFloat`: a finite double is rounded to the whole number nearest to what it stands for, and of two that
> are equally near to the one farther from zero.
-/

namespace VisualEncoding

/-! ## The nearest whole number -/

/-- No whole number is nearer to a rational one, and one that is as near is not farther from zero. -/
structure IsNearest (q : ℚ) (n : ℤ) : Prop where
  near : |q - n| ≤ 1 / 2
  away : |q - n| = 1 / 2 → |q| < |(n : ℚ)|

namespace IsNearest

variable {q : ℚ} {n n' : ℤ}

theorem neg (h : IsNearest q n) : IsNearest (-q) (-n) := by
  have hdistance : |-q - ((-n : ℤ) : ℚ)| = |q - n| := by
    rw [← abs_neg]
    push_cast
    ring_nf
  refine ⟨hdistance ▸ h.near, fun hhalf => ?_⟩
  rw [hdistance] at hhalf
  rw [Int.cast_neg, abs_neg, abs_neg]
  exact h.away hhalf

/-- There is only one nearest whole number. -/
theorem unique (h : IsNearest q n) (h' : IsNearest q n') : n = n' := by
  -- of two neighbours half a unit away, one lies between zero and the number
  wlog hlt : n < n' generalizing n n'
  · rcases lt_trichotomy n n' with hnn' | hnn' | hnn'
    · exact absurd hnn' hlt
    · exact hnn'
    · exact (this h' h hnn').symm
  have hstep : (n : ℚ) + 1 ≤ n' := by exact_mod_cast hlt
  obtain ⟨-, hle⟩ := abs_le.mp h.near
  obtain ⟨hge, -⟩ := abs_le.mp h'.near
  have hlow : q - n = 1 / 2 := by linarith
  have hhigh : q - n' = -(1 / 2) := by linarith
  have haway := h.away (by rw [hlow]; norm_num)
  have haway' := h'.away (by rw [hhigh]; norm_num)
  rcases le_or_gt 0 q with hq | hq
  · have hn : 0 ≤ n := by
      have hbelow : (-1 : ℚ) < n := by linarith
      have hbelow : -1 < n := by exact_mod_cast hbelow
      omega
    rw [abs_of_nonneg hq, abs_of_nonneg (by exact_mod_cast hn)] at haway
    linarith
  · have hn : n' ≤ 0 := by
      have habove : (n' : ℚ) < 1 := by linarith
      have habove : n' < 1 := by exact_mod_cast habove
      omega
    rw [abs_of_neg hq, abs_of_nonpos (by exact_mod_cast hn)] at haway'
    linarith

end IsNearest

/-- A quotient that is rounded with halves going up. -/
theorem Decimal.isNearest_roundHalfUp (num : ℕ) {den : ℕ} (hden : 0 < den) :
    IsNearest ((num : ℚ) / den) (roundHalfUp num den : ℕ) := by
  have hpos : (0 : ℚ) < den := by exact_mod_cast hden
  have hfloor : 2 * den * roundHalfUp num den ≤ 2 * num + den := Nat.mul_div_le _ _
  have hceil : 2 * num + den < 2 * den * (roundHalfUp num den + 1) := Nat.lt_mul_div_succ _ (by omega)
  generalize roundHalfUp num den = k at hfloor hceil
  have hfloor : 2 * (den : ℚ) * k ≤ 2 * num + den := by exact_mod_cast hfloor
  have hceil : 2 * (num : ℚ) + den < 2 * den * (k + 1) := by exact_mod_cast hceil
  have hbelow : (k : ℚ) - 1 / 2 ≤ num / den := by
    rw [le_div_iff₀ hpos]
    linarith
  have habove : (num : ℚ) / den < k + 1 / 2 := by
    rw [div_lt_iff₀ hpos]
    linarith
  have hnonneg : (0 : ℚ) ≤ num / den := by positivity
  refine ⟨?_, ?_⟩ <;> rw [Int.cast_natCast]
  · exact abs_le.mpr ⟨by linarith, by linarith⟩
  -- half a unit away, it is below the number that it is rounded to
  intro hhalf
  rw [abs_of_nonneg hnonneg, abs_of_nonneg (by positivity)]
  rcases abs_eq (by norm_num) |>.mp hhalf with h | h <;> linarith

theorem Decimal.cast_powerRatio {b : ℕ} (hb : b ≠ 0) (e : ℤ) :
    ((powerRatio b e).1 : ℚ) = (powerRatio b e).2 * (b : ℚ) ^ e := by
  have hb : (b : ℚ) ≠ 0 := by exact_mod_cast hb
  show ((b ^ e.toNat : ℕ) : ℚ) = ((b ^ (-e).toNat : ℕ) : ℚ) * (b : ℚ) ^ e
  push_cast
  rw [← zpow_natCast, ← zpow_natCast, ← zpow_add₀ hb]
  congr 1
  omega

/-! ## The parts of a double -/

namespace Double

open Float.Model
open Float.Model.UnpackedFloat (Sign unpackSign unpackExponent unpackMantissa)

/-- The number that an unpacked double stands for, zero for one that is not finite. -/
def valueOf : UnpackedFloat → ℚ
  | .finite .positive m e _ => m * 2 ^ e
  | .finite .negative m e _ => -(m * 2 ^ e)
  | _ => 0

/-- The number that a double stands for, zero for one that is not finite. -/
def value (x : Float) : ℚ := valueOf x.toModel.unpack

/-- The parts of a double as its model has them. -/
def exactOf : UnpackedFloat → Decimal.Exact
  | .zero s => .finite (s == .negative) 0 (-1074)
  | .finite s m e _ => .finite (s == .negative) m e
  | .infinity s => .infinite (s == .negative)
  | .notANumber => .notANumber

theorem toNat_unpackSign (b : BitVec 64) : (@unpackSign Format.binary64 b).toNat = b.toNat / 2 ^ 63 := by
  have hb : b.toNat < 2 ^ 64 := b.isLt
  show b.toNat >>> 63 % 2 ^ 1 = b.toNat / 2 ^ 63
  rw [Nat.shiftRight_eq_div_pow]
  omega

theorem toNat_unpackExponent (b : BitVec 64) :
    (@unpackExponent Format.binary64 b).toNat = b.toNat / 2 ^ 52 % 2048 := by
  show b.toNat >>> 52 % 2 ^ 11 = _
  rw [Nat.shiftRight_eq_div_pow]

theorem unpackExponent_eq_ones_iff (b : BitVec 64) :
    @unpackExponent Format.binary64 b = -1#_ ↔ b.toNat / 2 ^ 52 % 2048 = 2047 := by
  rw [← toNat_unpackExponent, ← BitVec.toNat_inj]
  rfl

theorem unpackExponent_eq_zero_iff (b : BitVec 64) :
    @unpackExponent Format.binary64 b = 0#_ ↔ b.toNat / 2 ^ 52 % 2048 = 0 := by
  rw [← toNat_unpackExponent, ← BitVec.toNat_inj]
  rfl

theorem toNat_unpackMantissa (b : BitVec 64) : (@unpackMantissa Format.binary64 b).toNat = b.toNat % 2 ^ 52 := rfl

theorem unpackMantissa_eq_zero_iff (b : BitVec 64) :
    @unpackMantissa Format.binary64 b = 0#_ ↔ b.toNat % 2 ^ 52 = 0 := by
  rw [← toNat_unpackMantissa, ← BitVec.toNat_inj]
  rfl

theorem ofBitVec_beq_negative (s : BitVec 1) : (Sign.ofBitVec s == .negative) = (s.toNat == 1) := by
  revert s
  decide

/-- The parts that are read off the bits of a double are those of its model. -/
theorem exact_ofFloat_eq (x : Float) : Decimal.Exact.ofFloat x = exactOf x.toModel.unpack := by
  have hbits : x.toBits.toNat = x.toModel.toBits.toBitVec.toNat := rfl
  have hunpack : x.toModel.unpack = UnpackedFloat.unpack Format.binary64 x.toModel.toBits.toBitVec := rfl
  unfold Decimal.Exact.ofFloat
  rw [hbits, hunpack]
  generalize x.toModel.toBits.toBitVec = b
  have hsign : (Sign.ofBitVec (@unpackSign Format.binary64 b) == .negative) = (b.toNat / 2 ^ 63 == 1) := by
    rw [ofBitVec_beq_negative, toNat_unpackSign]
  have hones := unpackExponent_eq_ones_iff b
  have hzeros := unpackExponent_eq_zero_iff b
  have hwhole := unpackMantissa_eq_zero_iff b
  have hleast : Decimal.leastNormal = 2 ^ 52 := rfl
  have htop : (0x8000000000000000 : ℕ) = 2 ^ 63 := rfl
  unfold UnpackedFloat.unpack
  dsimp only
  rw [hleast, htop]
  by_cases hmax : b.toNat / 2 ^ 52 % 2048 = 2047
  · rw [if_pos (beq_iff_eq.mpr hmax), if_pos (hones.mpr hmax)]
    by_cases hfraction : b.toNat % 2 ^ 52 = 0
    · rw [if_pos (beq_iff_eq.mpr hfraction), if_pos (hwhole.mpr hfraction), exactOf, hsign]
    · rw [if_neg (mt beq_iff_eq.mp hfraction), if_neg (mt hwhole.mp hfraction), exactOf]
  · rw [if_neg (mt beq_iff_eq.mp hmax), if_neg (mt hones.mp hmax)]
    by_cases hmin : b.toNat / 2 ^ 52 % 2048 = 0
    · rw [if_pos (beq_iff_eq.mpr hmin), if_pos (hzeros.mpr hmin)]
      by_cases hfraction : b.toNat % 2 ^ 52 = 0
      · rw [dif_pos (hwhole.mpr hfraction), exactOf, hsign, hfraction]
      · rw [dif_neg (mt hwhole.mp hfraction), exactOf, hsign, toNat_unpackExponent, hmin]
        rfl
    · rw [if_neg (mt beq_iff_eq.mp hmin), if_neg (mt hzeros.mp hmin), exactOf, hsign, toNat_unpackExponent]
      have hnormal := toNat_unpackedMantissa (@unpackMantissa Format.binary64 b)
      rw [toNat_unpackMantissa] at hnormal
      exact congrArg (fun m => Decimal.Exact.finite _ m (Int.ofNat (b.toNat / 2 ^ 52 % 2048) - 1075)) hnormal.symm

theorem isNaN_of_isFinite {x : Float} (hx : x.isFinite = true) : x.isNaN = false := by
  have hfinite : x.toModel.unpack.isFinite = true := hx
  show x.toModel.unpack.isNaN = false
  cases hunpack : x.toModel.unpack with
  | infinity s | notANumber =>
    rw [hunpack] at hfinite
    nomatch hfinite
  | zero s | finite s m e hm => rfl

/-- A power of two as a ratio of natural numbers. -/
theorem zpow_eq_powerRatio (e : ℤ) :
    (2 : ℚ) ^ e = ((Decimal.powerRatio 2 e).1 : ℕ) / ((Decimal.powerRatio 2 e).2 : ℕ) := by
  have hpos : (0 : ℚ) < (Decimal.powerRatio 2 e).2 := by
    exact_mod_cast (Nat.pow_pos (by decide) : 0 < 2 ^ (-e).toNat)
  rw [Decimal.cast_powerRatio two_ne_zero, mul_div_cancel_left₀ _ hpos.ne', Nat.cast_ofNat]

/-- The magnitude of a double is rounded to the nearest whole number. -/
theorem isNearest_magnitude (m : ℕ) (e : ℤ) :
    IsNearest (m * 2 ^ e)
      (Decimal.roundHalfUp (m * (Decimal.powerRatio 2 e).1) (Decimal.powerRatio 2 e).2 : ℕ) := by
  have hvalue : (m : ℚ) * 2 ^ e
      = ((m * (Decimal.powerRatio 2 e).1 : ℕ) : ℚ) / ((Decimal.powerRatio 2 e).2 : ℕ) := by
    rw [zpow_eq_powerRatio, Nat.cast_mul, mul_div_assoc]
  rw [hvalue]
  exact Decimal.isNearest_roundHalfUp _ (Nat.pow_pos (by decide))

/-- **A finite double is rounded to the whole number nearest to what it stands for**, halves away from zero. -/
theorem isNearest_roundFloat {x : Float} (hx : x.isFinite = true) : IsNearest (value x) (Decimal.roundFloat x) := by
  have hfinite : x.toModel.unpack.isFinite = true := hx
  unfold value Decimal.roundFloat
  rw [exact_ofFloat_eq]
  cases hunpack : x.toModel.unpack with
  | infinity s | notANumber =>
    rw [hunpack] at hfinite
    nomatch hfinite
  | zero s =>
    have hzero := isNearest_magnitude 0 (-1074)
    rw [Nat.cast_zero, zero_mul] at hzero
    cases s with
    | positive => exact hzero
    | negative =>
      have hneg := hzero.neg
      rw [neg_zero] at hneg
      exact hneg
  | finite s m e hm =>
    cases s with
    | positive => exact isNearest_magnitude m e
    | negative => exact (isNearest_magnitude m e).neg

end Double

end VisualEncoding
