import VisualEncoding.Proofs.Scalar.Integers

/-!
# Products and quotients of finite doubles

A product of finite doubles may be beyond the greatest one, but it is not undefined
(`isFinite_mul`). A quotient of finite doubles stays finite if the divisor is at least one (`isFinite_div`), as the
powers of ten with up to 308 zeros are (`isFinite_one_le_nearest`).
-/

namespace VisualEncoding.Double

open Float.Model
open Float.Model.UnpackedFloat (Sign unpackExponent roundWithAccuracy)

variable {x y : Float}

/-- A finite number is packed into a finite double, or into an infinite one if its exponent is too large. -/
theorem isFinite_or_isInf {u : UnpackedFloat} (hu : u.isFinite = true) :
    (ofUnpacked u).isFinite = true ∨ (ofUnpacked u).isInf = true := by
  match u, hu with
  | .zero s, _ => exact .inl (isRounded_ofUnpacked_zero s).isFinite
  | .finite s m e hm, _ =>
    show (UnpackedFloat.unpack Format.binary64 (UnpackedFloat.pack Format.binary64 (.finite s m e hm))).isFinite = true ∨
      (UnpackedFloat.unpack Format.binary64 (UnpackedFloat.pack Format.binary64 (.finite s m e hm))).isInf = true
    have hfinite : ∀ {b : BitVec 64}, (@unpackExponent Format.binary64 b).toNat ≠ 2047 →
        (UnpackedFloat.unpack Format.binary64 b).isFinite = true := by
      intro b hexponent
      unfold UnpackedFloat.unpack
      dsimp only
      rw [if_neg fun hones => hexponent (congrArg BitVec.toNat hones)]
      split
      · split <;> rfl
      · rfl
    rw [pack_finite]
    split
    next =>
      right
      cases s <;> rfl
    next hfits =>
      left
      split
      · refine hfinite ?_
        rw [UnpackedFloat.unpackExponent_packComponents, BitVec.toNat_ofNat,
          Nat.mod_eq_of_lt (show (e + 1075).toNat < 2 ^ 11 by omega)]
        omega
      · refine hfinite ?_
        rw [UnpackedFloat.unpackExponent_packComponents]
        decide

theorem isFinite_roundWithAccuracy (s : Sign) (m : Nat) (e : Int) (accuracy : UnpackedFloat.Accuracy) :
    (roundWithAccuracy Format.binary64 s m e accuracy).isFinite = true := by
  unfold roundWithAccuracy
  dsimp only
  split <;> rfl

/-- A product of finite doubles that is not infinite is finite. -/
theorem isFinite_mul (hx : x.isFinite = true) (hy : y.isFinite = true) (hinf : (x * y).isInf = false) :
    (x * y).isFinite = true := by
  refine (isFinite_or_isInf ?_).resolve_right (Bool.eq_false_iff.mp hinf)
  have hx : x.toModel.unpack.isFinite = true := hx
  have hy : y.toModel.unpack.isFinite = true := hy
  generalize x.toModel.unpack = u at hx
  generalize y.toModel.unpack = v at hy
  match u, v, hx, hy with
  | .zero _, .zero _, _, _ => rfl
  | .zero _, .finite .., _, _ => rfl
  | .finite .., .zero _, _, _ => rfl
  | .finite .., .finite .., _, _ => exact isFinite_roundWithAccuracy _ _ _ _

/-- A finite double divided by a number of at least one is finite. -/
theorem isFinite_div (hx : x.isFinite = true) (hy : y.isFinite = true) (hleast : 1 ≤ |value y|) :
    (x / y).isFinite = true := by
  have hnonzero : value y ≠ 0 := fun hzero => by
    rw [hzero, abs_zero] at hleast
    exact absurd hleast (by norm_num)
  refine (isRounded_div hx hy hnonzero ?_).isFinite
  rw [abs_div]
  exact (div_le_self (abs_nonneg _) hleast).trans_lt (abs_value_lt x)

/-- A word is rounded to a double. -/
theorem isRounded_toFloat (n : UInt64) : IsRounded n.toFloat n.toNat := by
  have hless : |((n.toNat : ℤ) : ℚ) * 2 ^ (0 : ℤ)| < overflow := by
    have hn : (n.toNat : ℚ) < 2 ^ 64 := by exact_mod_cast n.toNat_lt
    rw [zpow_zero, mul_one, Int.cast_natCast, Nat.abs_cast]
    exact (hn.trans_le (pow_le_pow_right₀ one_le_two (by decide))).trans pow_lt_overflow
  have hrounded := isRounded_normalize n.toNat .positive hless
  rw [zpow_zero, mul_one, Int.cast_natCast] at hrounded
  exact hrounded

theorem isFinite_toFloat (n : UInt64) : n.toFloat.isFinite = true := (isRounded_toFloat n).isFinite

/-! ## Powers of ten -/

theorem ten_pow_lt_overflow {n : ℕ} (hn : n ≤ 308) : (10 : ℚ) ^ n < overflow := by
  have htwos : (10 : ℚ) ^ 28 ≤ 101 / 100 * 2 ^ 93 := by norm_num
  calc (10 : ℚ) ^ n ≤ 10 ^ (28 * 11) := pow_le_pow_right₀ (by norm_num) hn
    _ = (10 ^ 28) ^ 11 := pow_mul _ _ _
    _ ≤ (101 / 100 * 2 ^ 93) ^ 11 := pow_le_pow_left₀ (by positivity) htwos 11
    _ = (101 / 100) ^ 11 * (2 ^ 53 * 2 ^ 970) := by rw [mul_pow, ← pow_mul, ← pow_add]
    _ ≤ 3 / 2 * (2 ^ 53 * 2 ^ 970) := mul_le_mul_of_nonneg_right (by norm_num) (by positivity)
    _ = 3 * 2 ^ 52 * 2 ^ 970 := by ring
    _ < (2 ^ 54 - 1) * 2 ^ 970 := mul_lt_mul_of_pos_right (by norm_num) (by positivity)

/-- A power of ten is rounded to a double. -/
theorem isRounded_nearest {n : ℕ} (hn : n ≤ 308) : IsRounded (Decimal.nearest 1 n) (10 ^ n) := by
  have hratio : Decimal.nearest 1 (n : Int) = Decimal.nearestRatio (10 ^ n) 1 := by
    have hdigits : Decimal.digitCount 1 = 1 := by decide
    have hnegative : (-(n : ℤ)).toNat = 0 := by omega
    unfold Decimal.nearest Decimal.BinaryFormat.nearest Decimal.powerRatio
    rw [if_neg (by decide), hdigits, if_neg (by omega), if_neg (by omega), Nat.one_mul, Int.toNat_natCast, hnegative]
    rfl
  have hvalue : ((10 ^ n : ℕ) : ℚ) / (1 : ℕ) = 10 ^ n := by
    push_cast
    exact div_one _
  have hrounded := isRounded_nearestRatio Nat.one_pos (hvalue.trans_lt (ten_pow_lt_overflow hn))
  rwa [hvalue, ← hratio] at hrounded

/-- The powers of ten that are doubles are at least one. -/
theorem isFinite_one_le_nearest {k : Int} (hpos : 0 ≤ k) (hk : k ≤ 308) :
    (Decimal.nearest 1 k).isFinite = true ∧ 1 ≤ value (Decimal.nearest 1 k) := by
  obtain ⟨n, rfl⟩ := Int.eq_ofNat_of_zero_le hpos
  have hrounded := isRounded_nearest (n := n) (by omega)
  refine ⟨hrounded.isFinite, hrounded.le_value (r := 1) ?_ (one_le_pow₀ (by norm_num))⟩
  exact_mod_cast isRepresentable_intCast (n := 1) (by decide)

theorem isFinite_nearest {k : Int} (hpos : 0 ≤ k) (hk : k ≤ 308) : (Decimal.nearest 1 k).isFinite = true :=
  (isFinite_one_le_nearest hpos hk).1

/-- A finite double divided by a power of ten is finite. -/
theorem isFinite_div_nearest {x : Float} {k : Int} (hx : x.isFinite = true) (hpos : 0 ≤ k) (hk : k ≤ 308) :
    (x / Decimal.nearest 1 k).isFinite = true := by
  obtain ⟨hfinite, hone⟩ := isFinite_one_le_nearest hpos hk
  exact isFinite_div hx hfinite (hone.trans (le_abs_self _))

end VisualEncoding.Double
