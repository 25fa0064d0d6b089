import VisualEncoding.Proofs.Scalar.Arithmetic

/-!
# Ratios and integers as doubles

A ratio of natural numbers is read as the double that is nearest to it (`isRounded_nearestRatio`). So an integer of 64
bits is a finite double (`isFinite_floatOfInt`), and one of 53 bits is that double exactly (`value_floatOfInt`).
-/

namespace VisualEncoding

namespace Decimal

/-- A quotient that is rounded with halves going to the even neighbour. -/
theorem abs_roundHalfEven_sub_le (num : ℕ) {den : ℕ} (hden : 0 < den) :
    |(roundHalfEven num den : ℚ) - num / den| ≤ 1 / 2 := by
  have hpos : (0 : ℚ) < den := by exact_mod_cast hden
  have hsplit : (num : ℚ) = (num / den : ℕ) * den + (num % den : ℕ) := by exact_mod_cast (Nat.div_add_mod' num den).symm
  have hquotient : (num : ℚ) / den = (num / den : ℕ) + ((num % den : ℕ) : ℚ) / den := by
    rw [div_eq_iff hpos.ne', add_mul, div_mul_cancel₀ _ hpos.ne']
    exact hsplit
  have hrest : (0 : ℚ) ≤ ((num % den : ℕ) : ℚ) / den := by positivity
  have hless : ((num % den : ℕ) : ℚ) / den < 1 := (div_lt_one hpos).mpr (by exact_mod_cast Nat.mod_lt num hden)
  rw [hquotient, abs_le]
  rcases roundHalfEven_eq_or num den with ⟨h, hhalf⟩ | ⟨h, hhalf⟩
  · have hhalf : ((num % den : ℕ) : ℚ) / den ≤ 1 / 2 := by
      rw [div_le_div_iff₀ hpos two_pos]
      exact_mod_cast (by omega : num % den * 2 ≤ 1 * den)
    rw [h]
    constructor <;> linarith
  · have hhalf : (1 : ℚ) / 2 ≤ ((num % den : ℕ) : ℚ) / den := by
      rw [div_le_div_iff₀ two_pos hpos]
      exact_mod_cast (by omega : 1 * den ≤ num % den * 2)
    rw [h]
    push_cast
    constructor <;> linarith

namespace BinaryFormat

open Double (two_zpow_pos zpow_eq_powerRatio)

variable {num den : ℕ}

/-- A ratio lies between powers of two that the binary digits of its parts give. -/
theorem ratio_bounds (hnum : 0 < num) (hden : 0 < den) :
    (2 : ℚ) ^ ((num.log2 : ℤ) - den.log2 - 1) ≤ num / den ∧ (num : ℚ) / den < 2 ^ ((num.log2 : ℤ) - den.log2 + 1) := by
  have hpos : (0 : ℚ) < den := by exact_mod_cast hden
  constructor
  · have hn : (2 : ℚ) ^ num.log2 ≤ num := by exact_mod_cast Nat.log2_self_le hnum.ne'
    have hd : (den : ℚ) ≤ 2 ^ (den.log2 + 1) := by exact_mod_cast Nat.lt_log2_self.le
    rw [le_div_iff₀ hpos]
    calc (2 : ℚ) ^ ((num.log2 : ℤ) - den.log2 - 1) * den
        ≤ 2 ^ ((num.log2 : ℤ) - den.log2 - 1) * 2 ^ (den.log2 + 1) :=
          mul_le_mul_of_nonneg_left hd (two_zpow_pos _).le
      _ = 2 ^ num.log2 := by
        rw [← zpow_natCast, ← zpow_natCast, ← zpow_add₀ two_ne_zero]
        congr 1
        push_cast
        ring
      _ ≤ num := hn
  · have hn : (num : ℚ) < 2 ^ (num.log2 + 1) := by exact_mod_cast Nat.lt_log2_self
    have hd : (2 : ℚ) ^ den.log2 ≤ den := by exact_mod_cast Nat.log2_self_le hden.ne'
    rw [div_lt_iff₀ hpos]
    calc (num : ℚ) < 2 ^ (num.log2 + 1) := hn
      _ = 2 ^ ((num.log2 : ℤ) - den.log2 + 1) * 2 ^ den.log2 := by
        rw [← zpow_natCast, ← zpow_natCast, ← zpow_add₀ two_ne_zero]
        congr 1
        push_cast
        ring
      _ ≤ 2 ^ ((num.log2 : ℤ) - den.log2 + 1) * den := mul_le_mul_of_nonneg_left hd (two_zpow_pos _).le

/-- A ratio has at most 53 bits at an exponent. -/
theorem fits_iff (hden : 0 < den) (g : ℤ) :
    num * (powerRatio 2 g).2 < den * (powerRatio 2 g).1 * (2 * binary64.leastNormal) ↔
      (num : ℚ) / den < 2 ^ 53 * 2 ^ g := by
  have hpos : (0 : ℚ) < den := by exact_mod_cast hden
  have hsecond : (0 : ℚ) < ((powerRatio 2 g).2 : ℕ) := by exact_mod_cast Nat.pow_pos two_pos
  have hlimit : 2 * binary64.leastNormal = 2 ^ 53 := by decide
  rw [zpow_eq_powerRatio, ← mul_div_assoc, div_lt_div_iff₀ hpos hsecond, hlimit, ← Nat.cast_lt (α := ℚ)]
  push_cast
  constructor <;> intro h <;> linarith

/-- A ratio takes 53 bits at its exponent, or fewer at the least exponent. -/
theorem fittingExponent_bounds (hnum : 0 < num) (hden : 0 < den) :
    (num : ℚ) / den < 2 ^ 53 * 2 ^ binary64.fittingExponent num den ∧
      (binary64.fittingExponent num den = -1074 ∨
        -1074 ≤ binary64.fittingExponent num den ∧ 2 ^ 52 * 2 ^ binary64.fittingExponent num den ≤ (num : ℚ) / den) := by
  obtain ⟨hlow, hhigh⟩ := ratio_bounds hnum hden
  have hshift : ∀ (n : ℕ) (g total : ℤ), n + g = total → (2 : ℚ) ^ n * 2 ^ g = 2 ^ total := by
    rintro n g total rfl
    rw [zpow_add₀ two_ne_zero, zpow_natCast]
  obtain ⟨g, hexponent, habove, hbelow⟩ : ∃ g : ℤ, binary64.fittingExponent num den = max (-1074) g ∧
      (num : ℚ) / den < 2 ^ 53 * 2 ^ g ∧ 2 ^ 52 * 2 ^ g ≤ (num : ℚ) / den := by
    by_cases hfits : num * (powerRatio 2 ((num.log2 : ℤ) - den.log2 - 53)).2
        < den * (powerRatio 2 ((num.log2 : ℤ) - den.log2 - 53)).1 * (2 * binary64.leastNormal)
    · refine ⟨(num.log2 : ℤ) - den.log2 - 53, congrArg (max _) (if_pos (decide_eq_true hfits)),
        (fits_iff hden _).mp hfits, ?_⟩
      rwa [hshift 52 _ ((num.log2 : ℤ) - den.log2 - 1) (by omega)]
    · refine ⟨(num.log2 : ℤ) - den.log2 - 53 + 1,
        congrArg (max _) (if_neg (Bool.not_eq_true _ ▸ decide_eq_false hfits)), ?_, ?_⟩
      · rwa [hshift 53 _ ((num.log2 : ℤ) - den.log2 + 1) (by omega)]
      · have hleast := not_lt.mp (mt (fits_iff hden _).mpr hfits)
        rw [hshift 53 _ ((num.log2 : ℤ) - den.log2) (by omega)] at hleast
        rwa [hshift 52 _ ((num.log2 : ℤ) - den.log2) (by omega)]
  rw [hexponent]
  rcases le_total g (-1074) with hle | hle
  · rw [max_eq_left hle]
    exact ⟨habove.trans_le (mul_le_mul_of_nonneg_left (zpow_le_zpow_right₀ one_le_two hle) (by positivity)), .inl rfl⟩
  · rw [max_eq_right hle]
    exact ⟨habove, .inr ⟨hle, hbelow⟩⟩

/-- The rounded mantissa at its exponent is at most half a unit away from the ratio. -/
theorem abs_rounded_sub_le (num : ℕ) (hden : 0 < den) (g : ℤ) :
    |((roundHalfEven (num * (powerRatio 2 g).2) (den * (powerRatio 2 g).1) : ℕ) : ℚ) * 2 ^ g - num / den|
      ≤ 2 ^ g / 2 := by
  have hfirst : 0 < (powerRatio 2 g).1 := Nat.pow_pos two_pos
  have hratio : ((num * (powerRatio 2 g).2 : ℕ) : ℚ) / (den * (powerRatio 2 g).1 : ℕ) * 2 ^ g = num / den := by
    have hsecond : (((powerRatio 2 g).2 : ℕ) : ℚ) ≠ 0 := by exact_mod_cast (Nat.pow_pos two_pos).ne'
    have hfirst' : (((powerRatio 2 g).1 : ℕ) : ℚ) ≠ 0 := by exact_mod_cast hfirst.ne'
    rw [zpow_eq_powerRatio]
    push_cast
    field_simp
  have hhalf := abs_roundHalfEven_sub_le (num * (powerRatio 2 g).2) (Nat.mul_pos hden hfirst)
  generalize roundHalfEven _ _ = mantissa at hhalf
  rw [← hratio, ← sub_mul, abs_mul, abs_of_pos (two_zpow_pos g)]
  linarith [mul_le_mul_of_nonneg_right hhalf (two_zpow_pos g).le]

end BinaryFormat

end Decimal

namespace Double

open Float.Model
open Float.Model.UnpackedFloat (unpackSign unpackExponent unpackMantissa)
open Decimal (BinaryFormat binary64 powerRatio roundHalfEven)

variable {b : BitVec 64} {m num den : ℕ} {e : ℤ}

/-! ## Ratios -/

/-- The bits of a positive double count its mantissa on from the exponents below. -/
theorem IsCanonical.unpack_of_toNat (h : IsCanonical m e) (hm : 0 < m)
    (hb : b.toNat = (e + 1074).toNat * 2 ^ 52 + m) :
    UnpackedFloat.unpack Format.binary64 b = .finite .positive m e hm := by
  have hlt := h.lt
  have hlo := h.le_exponent
  have hhi := h.exponent_le
  have hsign : @unpackSign Format.binary64 b = 0#1 := by
    refine BitVec.eq_of_toNat_eq ((toNat_unpackSign b).trans ?_)
    show b.toNat / 2 ^ 63 = 0
    omega
  have hfraction := toNat_unpackMantissa b
  unfold UnpackedFloat.unpack
  dsimp only
  rw [hsign, if_neg (by rw [unpackExponent_eq_ones_iff]; omega)]
  by_cases hnormal : 2 ^ 52 ≤ m
  · rw [if_neg (by rw [unpackExponent_eq_zero_iff]; omega)]
    congr 1
    · rw [toNat_unpackedMantissa, hfraction]
      omega
    · rw [toNat_unpackExponent]
      show ((b.toNat / 2 ^ 52 % 2048 : ℕ) : ℤ) - (1023 + 52) = e
      omega
  · obtain rfl : e = -1074 := h.normal.resolve_left hnormal
    rw [if_pos (by rw [unpackExponent_eq_zero_iff]; omega), dif_neg (by rw [unpackMantissa_eq_zero_iff]; omega)]
    congr 1
    · rw [hfraction]
      omega
    · rw [toNat_unpackExponent]
      show ((b.toNat / 2 ^ 52 % 2048 : ℕ) : ℤ) - (1023 + 52) + 1 = -1074
      omega

theorem toNat_bits (hlo : -1074 ≤ e) (hhi : e ≤ 970 ∨ e = 971 ∧ m < 2 ^ 53) (hle : m ≤ 2 ^ 53) :
    (UInt64.ofNat (binary64.bits m e)).toBitVec.toNat = (e + 1074).toNat * 2 ^ 52 + m := by
  have hleast : binary64.leastNormal = 2 ^ 52 := rfl
  have hexponent : binary64.leastExponent = -1074 := rfl
  have hinfinity : binary64.infinity = 2047 * 2 ^ 52 := rfl
  have hbits : binary64.bits m e = (e + 1074).toNat * 2 ^ 52 + m := by
    unfold BinaryFormat.bits
    rw [hleast, hexponent, hinfinity, sub_neg_eq_add]
    exact min_eq_left (by omega)
  rw [UInt64.toNat_toBitVec, UInt64.toNat_ofNat', hbits]
  exact Nat.mod_eq_of_lt (by omega)

/-- A double that is read from the bits of a canonical mantissa and exponent. -/
theorem IsCanonical.value_ofBits (h : IsCanonical m e) (hm : 0 < m) {w : UInt64}
    (hw : w.toBitVec.toNat = (e + 1074).toNat * 2 ^ 52 + m) :
    (Float.ofBits w).isFinite = true ∧ value (Float.ofBits w) = m * 2 ^ e := by
  show (UnpackedFloat.unpack _ (UnpackedFloat.pack _ (UnpackedFloat.unpack Format.binary64 w.toBitVec))).isFinite = true ∧
    valueOf (UnpackedFloat.unpack _ (UnpackedFloat.pack _ (UnpackedFloat.unpack Format.binary64 w.toBitVec))) = _
  rw [h.unpack_of_toNat hm hw, h.unpack_pack]
  exact ⟨rfl, valueOf_finite _ _ _ _⟩

/-- A mantissa of at most 53 bits is read back from the bits that it is stored in. -/
theorem value_ofBits (hlo : -1074 ≤ e) (hhi : e ≤ 970 ∨ e = 971 ∧ m < 2 ^ 53) (hle : m ≤ 2 ^ 53)
    (hnormal : 2 ^ 52 ≤ m ∨ e = -1074) :
    (Float.ofBits (UInt64.ofNat (binary64.bits m e))).isFinite = true ∧
      value (Float.ofBits (UInt64.ofNat (binary64.bits m e))) = m * 2 ^ e := by
  have hword := toNat_bits hlo hhi hle
  rcases Nat.eq_zero_or_pos m with rfl | hpos
  · obtain rfl : e = -1074 := hnormal.resolve_left (by decide)
    rw [Nat.cast_zero, zero_mul]
    exact ⟨rfl, rfl⟩
  · rcases hle.lt_or_eq with hlt | rfl
    · exact IsCanonical.value_ofBits ⟨hlt, hlo, by omega, hnormal⟩ hpos hword
    · -- the mantissa is carried over into the exponent
      have hcarried : IsCanonical (2 ^ 52) (e + 1) := ⟨by decide, by omega, by omega, .inl le_rfl⟩
      obtain ⟨hfinite, hvalue⟩ := hcarried.value_ofBits (Nat.two_pow_pos _) (hword.trans (by omega))
      refine ⟨hfinite, hvalue.trans ?_⟩
      rw [zpow_add_one₀ two_ne_zero]
      push_cast
      ring

/-- The mantissa of a ratio has 53 bits when it is rounded, or fewer at the least exponent. -/
theorem roundHalfEven_bounds (hnum : 0 < num) (hden : 0 < den) :
    let e := binary64.fittingExponent num den
    let m := roundHalfEven (num * (powerRatio 2 e).2) (den * (powerRatio 2 e).1)
    m ≤ 2 ^ 53 ∧ (2 ^ 52 ≤ m ∨ e = -1074) := by
  intro e m
  obtain ⟨habove, hfine⟩ := BinaryFormat.fittingExponent_bounds hnum hden
  have hhalf := BinaryFormat.abs_rounded_sub_le num hden e
  have hpos := two_zpow_pos e
  obtain ⟨hlo, hhi⟩ := abs_le.mp hhalf
  constructor
  · have hclose : (m : ℚ) * 2 ^ e < (2 ^ 53 + 1) * 2 ^ e := by linarith
    have hclose : (m : ℚ) < 2 ^ 53 + 1 := lt_of_mul_lt_mul_right hclose hpos.le
    have hclose : m < 2 ^ 53 + 1 := by exact_mod_cast hclose
    omega
  · refine hfine.symm.imp_left fun ⟨_, hleast⟩ => ?_
    have hclose : (2 ^ 52 : ℚ) * 2 ^ e < (m + 1) * 2 ^ e := by linarith
    have hclose : (2 ^ 52 : ℚ) < m + 1 := lt_of_mul_lt_mul_right hclose hpos.le
    have hclose : 2 ^ 52 < m + 1 := by exact_mod_cast hclose
    omega

/-- **A ratio is rounded to the nearest double.** -/
theorem isRounded_nearestRatio (hden : 0 < den) (hless : (num : ℚ) / den < overflow) :
    IsRounded (Decimal.nearestRatio num den) (num / den) := by
  unfold Decimal.nearestRatio BinaryFormat.nearestRatio
  rcases Nat.eq_zero_or_pos num with rfl | hnum
  · rw [if_pos (beq_self_eq_true 0), Nat.cast_zero, zero_div]
    exact isRounded_of_value_eq rfl rfl
  rw [if_neg (by simpa using hnum.ne')]
  dsimp only
  obtain ⟨-, hfine⟩ := BinaryFormat.fittingExponent_bounds hnum hden
  obtain ⟨hle, hnormal⟩ := roundHalfEven_bounds hnum hden
  have hhalf := BinaryFormat.abs_rounded_sub_le num hden (binary64.fittingExponent num den)
  generalize binary64.fittingExponent num den = e at hfine hhalf hle hnormal
  generalize roundHalfEven _ _ = m at hhalf hle hnormal
  have hfine' : e = -1074 ∨ 2 ^ 52 * 2 ^ e ≤ (num : ℚ) / den := hfine.imp_right And.right
  obtain ⟨hfinite, hvalue⟩ := value_ofBits (by omega) (exponent_le_of_lt hless hfine' hhalf) hle hnormal
  exact isRounded_of_le_half (s := .positive) (n := m) hfinite (by exact_mod_cast hvalue) (by exact_mod_cast hhalf)
    (hfine'.imp_right fun h => h.trans (le_abs_self _))

/-- A ratio that is not below one is read as such a double, or as infinity. -/
theorem one_le_nearestRatio (hden : 0 < den) (hle : den ≤ num) :
    (Decimal.nearestRatio num den).toModel.unpack = .infinity .positive ∨
      (Decimal.nearestRatio num den).isFinite = true ∧ 1 ≤ value (Decimal.nearestRatio num den) := by
  have hnum : 0 < num := hden.trans_le hle
  obtain ⟨habove, -⟩ := BinaryFormat.fittingExponent_bounds hnum hden
  obtain ⟨-, hnormal⟩ := roundHalfEven_bounds hnum hden
  unfold Decimal.nearestRatio BinaryFormat.nearestRatio
  rw [if_neg (by simpa using hnum.ne')]
  dsimp only
  generalize binary64.fittingExponent num den = e at habove hnormal
  generalize roundHalfEven _ _ = m at hnormal
  have he : -52 ≤ e := by
    have hone : (1 : ℚ) ≤ num / den := (one_le_div (by exact_mod_cast hden)).mpr (by exact_mod_cast hle)
    have hpow : (2 : ℚ) ^ (0 : ℤ) < 2 ^ (53 + e) := by
      rw [zpow_zero, zpow_add₀ two_ne_zero]
      exact_mod_cast hone.trans_lt habove
    have := (zpow_lt_zpow_iff_right₀ one_lt_two).mp hpow
    omega
  -- the bits are those of one or above, and those of infinity at most
  obtain ⟨n, hbits, hlo, hhi⟩ : ∃ n, binary64.bits m e = n ∧ 1023 * 2 ^ 52 ≤ n ∧ n ≤ 2047 * 2 ^ 52 := by
    have hleast : binary64.leastNormal = 2 ^ 52 := rfl
    have hexponent : binary64.leastExponent = -1074 := rfl
    have hinfinity : binary64.infinity = 2047 * 2 ^ 52 := rfl
    refine ⟨_, rfl, ?_, ?_⟩ <;> unfold BinaryFormat.bits <;> rw [hleast, hexponent, hinfinity, sub_neg_eq_add] <;> omega
  rw [hbits]
  have hword : (UInt64.ofNat n).toBitVec.toNat = n := by
    rw [UInt64.toNat_toBitVec, UInt64.toNat_ofNat']
    exact Nat.mod_eq_of_lt (by omega)
  rcases hhi.lt_or_eq with hlt | rfl
  · have hcanonical : IsCanonical (2 ^ 52 + n % 2 ^ 52) ((n / 2 ^ 52 : ℕ) - 1075) :=
      ⟨by omega, by omega, by omega, .inl (by omega)⟩
    obtain ⟨hfinite, hvalue⟩ := hcanonical.value_ofBits (by omega) (hword.trans (by omega))
    refine .inr ⟨hfinite, ?_⟩
    have hmantissa : (2 : ℚ) ^ 52 ≤ (2 ^ 52 + n % 2 ^ 52 : ℕ) := by exact_mod_cast Nat.le_add_right _ _
    have hpow : (2 : ℚ) ^ (-52 : ℤ) ≤ 2 ^ (((n / 2 ^ 52 : ℕ) : ℤ) - 1075) :=
      zpow_le_zpow_right₀ one_le_two (by omega)
    rw [hvalue]
    calc (1 : ℚ) = 2 ^ 52 * 2 ^ (-52 : ℤ) := by norm_num
      _ ≤ (2 ^ 52 + n % 2 ^ 52 : ℕ) * 2 ^ (((n / 2 ^ 52 : ℕ) : ℤ) - 1075) := by gcongr
  · exact .inl rfl

/-! ## Integers -/

theorem isRounded_floatOfInt {n : ℤ} (hn : |(n : ℚ)| < overflow) : IsRounded (Decimal.floatOfInt n) n := by
  have hnatural : ((n.natAbs : ℕ) : ℚ) / (1 : ℕ) = |(n : ℚ)| := by
    rw [Nat.cast_one, div_one, Nat.cast_natAbs, Int.cast_abs]
  have hbelow : ((n.natAbs : ℕ) : ℚ) / (1 : ℕ) < overflow := by rwa [hnatural]
  have hmagnitude := isRounded_nearestRatio Nat.one_pos hbelow
  rw [hnatural] at hmagnitude
  unfold Decimal.floatOfInt
  split
  next hneg =>
    have hcast : (n : ℚ) = -|(n : ℚ)| := by
      rw [abs_of_neg (by exact_mod_cast hneg), neg_neg]
    rw [hcast]
    exact hmagnitude.neg
  next hnot =>
    rwa [abs_of_nonneg (by exact_mod_cast Int.not_lt.mp hnot)] at hmagnitude

/-- An integer of 64 bits, with or without a sign, is a finite double. -/
theorem isFinite_floatOfInt {n : ℤ} (hn : n.natAbs < 2 ^ 64) : (Decimal.floatOfInt n).isFinite = true := by
  refine (isRounded_floatOfInt ?_).isFinite
  have hless : (n.natAbs : ℚ) < 2 ^ 64 := by exact_mod_cast hn
  rw [Nat.cast_natAbs, Int.cast_abs] at hless
  exact (hless.trans_le (pow_le_pow_right₀ one_le_two (by decide))).trans pow_lt_overflow

/-- An integer of 53 bits is a double. -/
theorem value_floatOfInt {n : ℤ} (hn : |n| ≤ 2 ^ 53) : value (Decimal.floatOfInt n) = n := by
  refine (isRounded_floatOfInt ?_).value_eq (isRepresentable_intCast hn)
  have hle : |(n : ℚ)| ≤ 2 ^ 53 := by exact_mod_cast hn
  exact hle.trans_lt ((pow_lt_pow_right₀ one_lt_two (by decide)).trans pow_lt_overflow)

theorem value_one : value (Decimal.floatOfInt 1) = 1 := by
  exact_mod_cast value_floatOfInt (n := 1) (by decide)

end Double

end VisualEncoding
