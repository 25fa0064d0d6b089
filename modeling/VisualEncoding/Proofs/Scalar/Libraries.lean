import VisualEncoding.Proofs.Scalar.Powers
import VisualEncoding.Proofs.Scalar.Scaling
import VisualEncoding.Proofs.Scalar.Wholes

/-!
# Mathematical functions of doubles

How a platform rounds logarithms and powers is not laid down, and platforms differ in the last digits. What calendar
intervals rely on is much less: a decimal logarithm and a power of ten are right to a thousandth, the logarithm of zero
is negative infinity, and a power of ten that is too large to be checked against is not small
(`MathLibrary.IsAccurate`). Every platform's functions are far more accurate than that.

> `MathLibrary.isAccurate_rounded`: functions that round the exact result to the nearest double are accurate.
-/

namespace VisualEncoding

open Double (value IsRepresentable overflow)

/-- Decimal logarithms and powers of ten are right to a thousandth. -/
class MathLibrary.IsAccurate (m : MathLibrary) : Prop where
  log10_near : ∀ {x : Float}, x.isFinite = true → 0 < value x → (m.log10 x).isFinite = true ∧
    |(value (m.log10 x) : ℝ) - Real.logb 10 (value x)| ≤ 1 / 1000
  log10_zero : ∀ {x : Float}, x.isFinite = true → value x = 0 → m.log10 x = Decimal.Numeral.toFloat (.infinite true)
  pow_near : ∀ {y : Float}, y.isFinite = true → 0 ≤ value y → value y ≤ 300 →
    (m.pow (Decimal.floatOfInt 10) y).isFinite = true ∧
      |(value (m.pow (Decimal.floatOfInt 10) y) : ℝ) - 10 ^ (value y : ℝ)| ≤ 10 ^ (value y : ℝ) / 1000
  one_le_pow : ∀ {y : Float}, Decimal.floatOfInt 300 ≤ y → Decimal.floatOfInt 1 ≤ m.pow (Decimal.floatOfInt 10) y

namespace Double

open Float.Model
open Float.Model.UnpackedFloat (Sign)

variable {x y : Float}

theorem two_zpow_le_value (hx : x.isFinite = true) (hpos : 0 < value x) : (2 : ℚ) ^ (-1074 : ℤ) ≤ value x := by
  rcases parts_of_isFinite hx with ⟨-, -, hzero⟩ | ⟨s, m, e, hm, -, hparts, hvalue⟩
  · exact absurd hzero hpos.ne'
  · rw [hvalue] at hpos ⊢
    cases s with
    | negative => exact absurd hpos (not_lt.mpr (neg_nonpos.mpr (mul_nonneg m.cast_nonneg (two_zpow_pos e).le)))
    | positive =>
      calc (2 : ℚ) ^ (-1074 : ℤ) ≤ 2 ^ e := zpow_le_zpow_right₀ one_le_two hparts.le_exponent
        _ ≤ m * 2 ^ e := le_mul_of_one_le_left (two_zpow_pos e).le (by exact_mod_cast hm)

/-- The exponents of doubles are moderate. -/
theorem abs_logb_value_le (hx : x.isFinite = true) (hpos : 0 < value x) : |Real.logb 10 (value x)| ≤ 1074 := by
  have hpos' : (0 : ℝ) < value x := by exact_mod_cast hpos
  have htwo : Real.logb 10 2 ≤ 1 := by
    rw [Real.logb_le_iff_le_rpow (by norm_num) two_pos, Real.rpow_one]
    norm_num
  have hpow : ∀ n : ℤ, |n| ≤ 1074 → |Real.logb 10 (((2 : ℚ) ^ n : ℚ) : ℝ)| ≤ 1074 := by
    intro n hn
    have hn : |(n : ℝ)| ≤ 1074 := by exact_mod_cast hn
    have hlog : 0 ≤ Real.logb 10 2 := Real.logb_nonneg (by norm_num) one_le_two
    rw [Rat.cast_zpow, Rat.cast_ofNat, ← Real.rpow_intCast, Real.logb_rpow_eq_mul_logb_of_pos two_pos, abs_mul,
      abs_of_nonneg hlog]
    calc |(n : ℝ)| * Real.logb 10 2 ≤ |(n : ℝ)| * 1 := mul_le_mul_of_nonneg_left htwo (abs_nonneg _)
      _ ≤ 1074 := by rwa [mul_one]
  have hlow : (((2 : ℚ) ^ (-1074 : ℤ) : ℚ) : ℝ) ≤ value x := Rat.cast_le.mpr (two_zpow_le_value hx hpos)
  have hhigh : (value x : ℝ) ≤ ((2 : ℚ) ^ (1024 : ℤ) : ℚ) := by
    refine Rat.cast_le.mpr (((le_abs_self _).trans (abs_value_lt x).le).trans ?_)
    have hsplit : (2 : ℚ) ^ (1024 : ℤ) = 2 ^ 54 * 2 ^ 970 := by
      rw [← pow_add, ← zpow_natCast]
      rfl
    rw [hsplit]
    exact mul_le_mul_of_nonneg_right (by norm_num) (by positivity)
  refine abs_le.mpr ⟨?_, ?_⟩
  · refine le_trans (abs_le.mp (hpow (-1074) (by decide))).1 ?_
    exact Real.logb_le_logb_of_le (by norm_num) (Rat.cast_pos.mpr (two_zpow_pos _)) hlow
  · refine le_trans ?_ (abs_le.mp (hpow 1024 (by decide))).2
    exact Real.logb_le_logb_of_le (by norm_num) hpos' hhigh

end Double

/-! ## Exact results, rounded -/

namespace Extended

/-- There is a representable number within a few bits of every number. -/
theorem exists_representable_near (x : ℝ) : ∃ r, IsRepresentable r ∧ |(r : ℝ) - x| ≤ max 1 |x| / 2 ^ 30 := by
  generalize hk : ⌊|x|⌋₊.log2 = k
  have hunit : (0 : ℝ) < 2 ^ (k - 30 : ℤ) := zpow_pos two_pos _
  have hsplit : (2 : ℝ) ^ (k - 30 : ℤ) = 2 ^ k / 2 ^ 30 := by
    rw [zpow_sub₀ two_ne_zero, zpow_natCast]
    norm_num
  have hhigh : |x| < 2 ^ (k + 1) := by
    have hless : ⌊|x|⌋₊ < 2 ^ (k + 1) := hk ▸ Nat.lt_log2_self
    exact_mod_cast Nat.lt_of_floor_lt hless
  have hlow : (2 : ℝ) ^ k ≤ max 1 |x| := by
    rcases Nat.eq_zero_or_pos ⌊|x|⌋₊ with hzero | hpos
    · rw [hzero, Nat.log2_zero] at hk
      rw [← hk, pow_zero]
      exact le_max_left _ _
    · have hle : 2 ^ k ≤ ⌊|x|⌋₊ := hk ▸ Nat.log2_self_le hpos.ne'
      have hle : (2 : ℝ) ^ k ≤ ⌊|x|⌋₊ := by exact_mod_cast hle
      exact (hle.trans (Nat.floor_le (abs_nonneg x))).trans (le_max_right _ _)
  refine ⟨⌊x / 2 ^ (k - 30 : ℤ)⌋ * 2 ^ (k - 30 : ℤ), ⟨_, _, ?_, by omega, rfl⟩, ?_⟩
  · have hquotient : |x / 2 ^ (k - 30 : ℤ)| < 2 ^ 31 := by
      rw [abs_div, abs_of_nonneg hunit.le, div_lt_iff₀ hunit, hsplit]
      calc |x| < 2 ^ (k + 1) := hhigh
        _ = 2 ^ 31 * (2 ^ k / 2 ^ 30) := by rw [pow_succ]; ring
    obtain ⟨hneg, hpos⟩ := abs_lt.mp hquotient
    have hfloor : ⌊x / 2 ^ (k - 30 : ℤ)⌋ < 2 ^ 31 := Int.floor_lt.mpr (by exact_mod_cast hpos)
    have hfloor' : -2 ^ 31 ≤ ⌊x / 2 ^ (k - 30 : ℤ)⌋ := Int.le_floor.mpr (by exact_mod_cast hneg.le)
    exact abs_lt.mpr ⟨by omega, by omega⟩
  · have hbelow := Int.floor_le (x / 2 ^ (k - 30 : ℤ))
    have habove := Int.lt_floor_add_one (x / 2 ^ (k - 30 : ℤ))
    rw [le_div_iff₀ hunit] at hbelow
    rw [div_lt_iff₀ hunit, add_mul, one_mul] at habove
    have hclose : (2 : ℝ) ^ (k - 30 : ℤ) ≤ max 1 |x| / 2 ^ 30 := by
      rw [hsplit]
      exact div_le_div_of_nonneg_right hlow (by positivity)
    push_cast
    refine (abs_le.mpr ⟨?_, ?_⟩).trans hclose <;> linarith

open Classical in
/-- A number is near one of a given number of bits. -/
theorem exists_ratio_near (x : ℝ) {k : ℕ} (hk : 31 ≤ k) :
    ∃ num den : ℕ,
      (2 * ⌊|x| * 2 ^ k⌋₊ + (if (⌊|x| * 2 ^ k⌋₊ : ℝ) = |x| * 2 ^ k then 0 else 1), 2 ^ (k + 1)) = (num, den) ∧
      0 < den ∧ |(num : ℝ) / den - (|x|)| ≤ 1 / 2 ^ 31 ∧ (1 ≤ |x| → den ≤ num) := by
  have hlarge : 2 ^ 31 ≤ 2 ^ k := Nat.pow_le_pow_right two_pos hk
  have hcast : ((2 ^ k : ℕ) : ℝ) = 2 ^ k := Nat.cast_pow 2 k
  rw [← hcast, Nat.pow_succ']
  generalize 2 ^ k = unit at hlarge
  have hlarge : (2 : ℝ) ^ 31 ≤ unit := by exact_mod_cast hlarge
  have hpos : (0 : ℝ) < unit := lt_of_lt_of_le (by norm_num) hlarge
  have hbelow := Nat.floor_le (mul_nonneg (abs_nonneg x) hpos.le)
  have habove := Nat.lt_floor_add_one (|x| * unit)
  generalize hfloor : ⌊|x| * unit⌋₊ = n at hbelow habove
  have hbits : ∀ b : ℕ, b ≤ 1 → |((2 * n + b : ℕ) : ℝ) / (2 * unit : ℕ) - (|x|)| ≤ 1 / 2 ^ 31 := by
    intro b hb
    have hb' : (b : ℝ) ≤ 1 := by exact_mod_cast hb
    have hquotient : ((2 * n + b : ℕ) : ℝ) / (2 * unit : ℕ) - (|x|) = (n + b / 2 - |x| * unit) / unit := by
      push_cast
      field_simp
    rw [hquotient, abs_div, abs_of_nonneg hpos.le]
    refine div_le_div₀ zero_le_one ?_ (by positivity) hlarge
    exact abs_le.mpr ⟨by linarith [b.cast_nonneg (α := ℝ)], by linarith⟩
  refine ⟨_, _, rfl, by exact_mod_cast (by linarith : (0 : ℝ) < 2 * unit), hbits _ (by split <;> omega), fun hone => ?_⟩
  have hunit : unit ≤ n := by
    rw [← hfloor]
    exact Nat.le_floor (le_mul_of_one_le_left hpos.le hone)
  omega

/-- A ratio nearby differs by what no double can tell. -/
theorem exists_nearbyRatio (x : ℝ) :
    ∃ num den : ℕ, nearbyRatio x = (num, den) ∧ 0 < den ∧ |(num : ℝ) / den - (|x|)| ≤ 1 / 2 ^ 31 ∧
      (1 ≤ |x| → den ≤ num) := by
  have hratio := exists_ratio_near x (k := 1200) (by decide)
  rw [show 1200 + 1 = 1201 from rfl] at hratio
  exact hratio

/-- The double nearest to a number is within a few bits of it. -/
theorem value_toDouble {x : ℝ} (hx : |x| ≤ 10 ^ 300) :
    (finite x).toDouble.isFinite = true ∧ |(value (finite x).toDouble : ℝ) - x| ≤ max 1 |x| / 2 ^ 29 := by
  obtain ⟨num, den, hratio, hden, hnearby, -⟩ := exists_nearbyRatio x
  have hone : (1 : ℝ) / 2 ^ 31 ≤ max 1 |x| / 2 ^ 31 :=
    div_le_div_of_nonneg_right (le_max_left _ _) (by positivity)
  have hrational : (((num : ℚ) / den : ℚ) : ℝ) = (num : ℝ) / den := by push_cast; rfl
  rw [← hrational] at hnearby
  have hless : (num : ℚ) / den < overflow := by
    refine lt_trans ?_ (Double.ten_pow_lt_overflow (n := 301) (by decide))
    have hsmall : (1 : ℝ) / 2 ^ 31 ≤ 1 := by norm_num
    have hlarge : (1 : ℝ) ≤ 10 ^ 300 := one_le_pow₀ (by norm_num)
    have hpow : (10 : ℝ) ^ 301 = 10 ^ 300 * 10 := pow_succ 10 300
    have hreal : (((num : ℚ) / den : ℚ) : ℝ) < 10 ^ 301 := by
      rw [hpow]
      generalize (10 : ℝ) ^ 300 = z at hx hlarge
      linarith [(abs_le.mp hnearby).2]
    have hcast : (((10 : ℚ) ^ 301 : ℚ) : ℝ) = 10 ^ 301 := by rw [Rat.cast_pow, Rat.cast_ofNat]
    rw [← hcast] at hreal
    exact Rat.cast_lt.mp hreal
  have hrounded := Double.isRounded_nearestRatio hden hless
  generalize hy : Decimal.nearestRatio num den = y at hrounded
  generalize (num : ℚ) / den = q at hrounded hnearby
  obtain ⟨r, hr, hnear⟩ := exists_representable_near |x|
  rw [abs_abs] at hnear
  have hmagnitude : |(value y : ℝ) - (|x|)| ≤ max 1 |x| / 2 ^ 29 := by
    have hnearest : |(value y : ℝ) - q| ≤ |(r : ℝ) - q| := by exact_mod_cast hrounded.nearest r hr
    have hsplit : max 1 |x| / 2 ^ 29 = max 1 |x| / 2 ^ 30 + (max 1 |x| / 2 ^ 31 + max 1 |x| / 2 ^ 31) := by ring
    have hvalue := abs_sub_le (value y : ℝ) q |x|
    have hcandidate := abs_sub_le (r : ℝ) |x| q
    rw [abs_sub_comm |x|] at hcandidate
    linarith
  unfold toDouble
  dsimp only
  rw [hratio, hy]
  by_cases hneg : x < 0
  · rw [isNegative, decide_eq_true hneg, if_pos rfl, Double.value_neg hrounded.isFinite]
    refine ⟨Double.isFinite_neg hrounded.isFinite, ?_⟩
    rw [abs_of_neg hneg] at hmagnitude ⊢
    have hopposite : ((-value y : ℚ) : ℝ) - x = -(value y - -x) := by
      push_cast
      ring
    rwa [hopposite, abs_neg]
  · rw [isNegative, decide_eq_false hneg, if_neg Bool.false_ne_true]
    rw [abs_of_nonneg (not_lt.mp hneg)] at hmagnitude ⊢
    exact ⟨hrounded.isFinite, hmagnitude⟩

/-- A number that is not below one is not rounded to less. -/
theorem one_le_toDouble {x : ℝ} (hx : 1 ≤ x) : Decimal.floatOfInt 1 ≤ (finite x).toDouble := by
  obtain ⟨num, den, hratio, hden, -, hle⟩ := exists_nearbyRatio x
  have hnot : ¬ x < 0 := by linarith
  unfold toDouble
  dsimp only
  rw [hratio, isNegative, decide_eq_false hnot, if_neg Bool.false_ne_true]
  dsimp only
  rcases Double.one_le_nearestRatio hden (hle (hx.trans (le_abs_self x))) with hinfinite | ⟨hfinite, hone⟩
  · rw [← Double.ofUnpacked_unpack (Decimal.nearestRatio num den), hinfinite]
    decide
  · have hvalue : value (Decimal.floatOfInt 1) = (1 : ℤ) := Double.value_floatOfInt (by decide)
    refine (Double.le_iff_value (Double.isFinite_ofInt (by decide)) hfinite).mpr ?_
    rw [hvalue]
    exact_mod_cast hone

end Extended

/-- The number that a double stands for. -/
def Extended.ofDouble (x : Float) : Extended :=
  match x.toModel.unpack with
  | .infinity s => .infinite (s == .negative)
  | .notANumber => .undefined
  | .zero _ | .finite .. => .finite (value x)

theorem Extended.ofDouble_of_isFinite {x : Float} (hx : x.isFinite = true) : ofDouble x = finite (value x) := by
  unfold ofDouble
  rcases Double.parts_of_isFinite hx with ⟨s, hs, -⟩ | ⟨s, m, e, hm, hs, -, -⟩ <;> rw [hs]

/-- The functions whose results are the doubles nearest to the exact ones. -/
noncomputable def MathLibrary.rounded : MathLibrary where
  log10 x := (Scalar.log10 (Extended.ofDouble x)).toDouble
  log2 x := (Scalar.log2 (Extended.ofDouble x)).toDouble
  ln x := (Scalar.ln (Extended.ofDouble x)).toDouble
  pow x y := (Scalar.pow (Extended.ofDouble x) (Extended.ofDouble y)).toDouble
  euler := (Scalar.euler : Extended).toDouble

namespace MathLibrary

open Extended (finite infinite)

theorem ofDouble_ten : Extended.ofDouble (Decimal.floatOfInt 10) = 10 := by
  rw [Extended.ofDouble_of_isFinite (Double.isFinite_ofInt (by decide)), Double.value_floatOfInt (by decide),
    Extended.ten_eq]
  norm_num

/-- Powers of ten are exact before they are rounded. -/
theorem rounded_pow {y : Float} (hy : y.isFinite = true) :
    rounded.pow (Decimal.floatOfInt 10) y = (finite (10 ^ (value y : ℝ))).toDouble := by
  show (Scalar.pow (Extended.ofDouble _) (Extended.ofDouble y)).toDouble = _
  rw [ofDouble_ten, Extended.ofDouble_of_isFinite hy, Extended.pow_ten]

/-- **Functions that round the exact result are accurate.** -/
instance isAccurate_rounded : IsAccurate .rounded where
  log10_near := by
    intro x hx hpos
    have hmoderate := Double.abs_logb_value_le hx hpos
    obtain ⟨hfinite, hnear⟩ := Extended.value_toDouble (x := Real.logb 10 (value x))
      (hmoderate.trans ((by norm_num : (1074 : ℝ) ≤ 10 ^ 4).trans (pow_le_pow_right₀ (by norm_num) (by decide))))
    show (Scalar.log10 (Extended.ofDouble x)).toDouble.isFinite = true ∧
      |(value (Scalar.log10 (Extended.ofDouble x)).toDouble : ℝ) - _| ≤ _
    rw [Extended.ofDouble_of_isFinite hx, Extended.log10_finite (by exact_mod_cast hpos)]
    refine ⟨hfinite, hnear.trans ?_⟩
    rw [div_le_iff₀ (by norm_num)]
    exact max_le (by norm_num) (hmoderate.trans (by norm_num))
  log10_zero := by
    intro x hx hzero
    show (Scalar.log10 (Extended.ofDouble x)).toDouble = _
    rw [Extended.ofDouble_of_isFinite hx, hzero, Rat.cast_zero, Extended.log10_zero]
    rfl
  pow_near := by
    intro y hy hnonneg hle
    have hone : (1 : ℝ) ≤ 10 ^ (value y : ℝ) := Real.one_le_rpow (by norm_num) (by exact_mod_cast hnonneg)
    have hlarge : (10 : ℝ) ^ (value y : ℝ) ≤ 10 ^ 300 := by
      have hle : (value y : ℝ) ≤ (300 : ℕ) := by exact_mod_cast hle
      rw [← Real.rpow_natCast]
      exact Real.rpow_le_rpow_of_exponent_le (by norm_num) hle
    rw [rounded_pow hy]
    obtain ⟨hfinite, hnear⟩ := Extended.value_toDouble (x := 10 ^ (value y : ℝ))
      (by rwa [abs_of_nonneg (zero_le_one.trans hone)])
    refine ⟨hfinite, hnear.trans ?_⟩
    rw [abs_of_nonneg (zero_le_one.trans hone), max_eq_right hone]
    exact div_le_div_of_nonneg_left (zero_le_one.trans hone) (by norm_num) (by norm_num)
  one_le_pow := by
    intro y hle
    rcases Double.cases_of_le (Double.isFinite_ofInt (by decide)) hle with hinfinite | ⟨hy, hvalue⟩
    · have hy : Extended.ofDouble y = infinite false := by
        unfold Extended.ofDouble
        rw [hinfinite]
        rfl
      show _ ≤ (Scalar.pow (Extended.ofDouble _) (Extended.ofDouble y)).toDouble
      rw [ofDouble_ten, hy, Extended.pow_ten_infinite]
      decide
    · rw [rounded_pow hy]
      rw [Double.value_floatOfInt (by decide)] at hvalue
      have hnonneg : (0 : ℚ) ≤ value y := le_trans (by norm_num) hvalue
      exact Extended.one_le_toDouble (Real.one_le_rpow (by norm_num) (by exact_mod_cast hnonneg))

end MathLibrary

end VisualEncoding
