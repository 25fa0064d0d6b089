import VisualEncoding.Proofs.Scalar.Libraries
import VisualEncoding.Ticks.Linear

/-!
# The size of steps in doubles

Rounding may pick a step that is not the closest one, but not one that is much longer than a part of the interval: the
power of ten and the factor that make it up are right to a thousandth, if the platform's functions are
(`MathLibrary.IsAccurate`). A step below one is carried as its reciprocal, which is infinite for a part of no length.

> `Ticks.isModerate_abs_step`: parts of up to 9000 times a power of ten have steps of up to 10010 times that power.
-/

namespace VisualEncoding

open Double (value ofUnpacked IsRepresentable)

namespace Ticks

/-- A number that a part of some `d + 4` digits may have as its step. -/
structure IsModerate (d : ℕ) (x : Float) : Prop where
  isFinite : x.isFinite = true
  nonneg : 0 ≤ value x
  le : value x ≤ 10010 * 10 ^ d

variable {d : ℕ}

theorem ten_pow_le (hd : d ≤ 10) : (10010 * 10 ^ d : ℤ) ≤ 10 ^ 15 := by
  have hpow : (10 : ℤ) ^ d ≤ 10 ^ 10 := pow_le_pow_right₀ (by decide) hd
  omega

theorem exists_stepFactor {α : Type} [Scalar α] (ratio : α) :
    ∃ n : ℤ, 1 ≤ n ∧ n ≤ 10 ∧ stepFactor ratio = Scalar.ofInt n := by
  unfold stepFactor
  split
  · exact ⟨10, by decide, by decide, rfl⟩
  split
  · exact ⟨5, by decide, by decide, rfl⟩
  split
  · exact ⟨2, by decide, by decide, rfl⟩
  · exact ⟨1, by decide, by decide, rfl⟩

/-- The increment of a grid is made of a power of ten and a factor. -/
theorem increment_gridFor {α : Type} [Scalar α] (start stop : α) (count : ℕ) :
    ∃ factor : ℤ, 1 ≤ factor ∧ factor ≤ 10 ∧
      (gridFor start stop count).increment =
        let power := Scalar.floor (Scalar.log10 ((stop - start) / Scalar.ofInt count))
        if power < 0 then -(Scalar.pow 10 (-power) / Scalar.ofInt factor)
        else Scalar.pow 10 power * Scalar.ofInt factor := by
  unfold gridFor
  dsimp only
  generalize (stop - start) / Scalar.ofInt count = part
  obtain ⟨factor, hfactor, hfactor', hratio⟩ :=
    exists_stepFactor (part / Scalar.pow 10 (Scalar.floor (Scalar.log10 part)))
  refine ⟨factor, hfactor, hfactor', ?_⟩
  rw [hratio]
  split <;> rfl

section

variable {n : ℤ} {p : Float}

/-- A part of a number that is not below one. -/
theorem sixteenth_le_part (hp : p.isFinite = true) (hle : 1 ≤ value p) (hn : 1 ≤ n) (hn' : n ≤ 10) :
    (p / Decimal.floatOfInt n).isFinite = true ∧ 1 / 16 ≤ value (p / Decimal.floatOfInt n) := by
  have hsmall : |n| ≤ 2 ^ 53 := abs_le.mpr ⟨by omega, by omega⟩
  have hvalue := Double.value_floatOfInt hsmall
  have hn10 : (n : ℚ) ≤ 10 := by exact_mod_cast hn'
  have hn1 : (1 : ℚ) ≤ n := by exact_mod_cast hn
  have hn0 : (0 : ℚ) < n := zero_lt_one.trans_le hn1
  have hscale := Double.isRounded_div hp (Double.isFinite_ofInt hsmall) (by rw [hvalue]; exact hn0.ne') (by
    rw [hvalue, abs_div, abs_of_pos hn0]
    exact (div_le_self (abs_nonneg _) hn1).trans_lt (Double.abs_value_lt p))
  rw [hvalue] at hscale
  refine ⟨hscale.isFinite, hscale.le_value ⟨1, -4, by decide, by decide, by norm_num⟩ ?_⟩
  rw [le_div_iff₀ hn0]
  linarith

/-- A number that is not below a sixteenth is the reciprocal of a step, whose negation stands for it. -/
theorem isModerate_one_div {scale : Float} (hscale : scale.isFinite = true) (hleast : 1 / 16 ≤ value scale) :
    -scale < Decimal.floatOfInt 0 ∧ IsModerate d (Decimal.floatOfInt 1 / -(-scale)) := by
  have hpos : 0 < value scale := by linarith
  have hfinite := Double.isFinite_neg hscale
  have hvalue := Double.value_neg hscale
  have hback : value (- -scale) = value scale := by rw [Double.value_neg hfinite, hvalue, neg_neg]
  have hnonneg : 0 ≤ 1 / value scale := by positivity
  have hreciprocal : 1 / value scale ≤ (16 : ℤ) := by
    rw [div_le_iff₀ hpos]
    push_cast
    linarith
  have hsixteen : ((16 : ℤ) : ℚ) ≤ 10010 * 10 ^ d := by
    have hpow : (1 : ℚ) ≤ 10 ^ d := one_le_pow₀ (by norm_num)
    push_cast
    linarith
  have hsize := Double.isRounded_div (Double.isFinite_ofInt (n := 1) (by decide)) (Double.isFinite_neg hfinite)
    (by rw [hback]; exact hpos.ne') (by
      rw [Double.value_one, hback, abs_of_nonneg hnonneg]
      exact hreciprocal.trans_lt (lt_trans (by norm_num : ((16 : ℤ) : ℚ) < 10 ^ 2) (Double.ten_pow_lt_overflow (by decide))))
  rw [Double.value_one, hback] at hsize
  refine ⟨?_, hsize.isFinite, hsize.nonneg hnonneg, ?_⟩
  · rw [Double.lt_iff_value hfinite (Double.isFinite_ofInt (by decide)), hvalue, Double.value_floatOfInt (by decide)]
    simpa using hpos
  · exact (hsize.value_le (Double.isRepresentable_intCast (by decide)) hreciprocal).trans hsixteen

/-- The reciprocal of a step below one. -/
theorem isModerate_reciprocal (hp : Decimal.floatOfInt 1 ≤ p) (hn : 1 ≤ n) (hn' : n ≤ 10) :
    -(p / Decimal.floatOfInt n) < Decimal.floatOfInt 0 ∧
      IsModerate d (Decimal.floatOfInt 1 / -(-(p / Decimal.floatOfInt n))) := by
  rcases Double.cases_of_le (Double.isFinite_ofInt (by decide)) hp with hinfinite | ⟨hp, hle⟩
  · -- an infinite reciprocal leaves zero
    obtain ⟨k, e, hk, hs⟩ := Double.unpack_floatOfInt (n := n) (by omega) (by omega)
    have hquotient : p / Decimal.floatOfInt n = ofUnpacked (.infinity .positive) := by
      show ofUnpacked (Float.Model.UnpackedFloat.div Float.Model.Format.binary64 p.toModel.unpack _) = _
      rw [hinfinite, hs]
      rfl
    have hnone : value (Decimal.floatOfInt 1 / -(-ofUnpacked (.infinity .positive))) = 0 := rfl
    rw [hquotient]
    exact ⟨by decide, rfl, hnone.ge, hnone.trans_le (by positivity)⟩
  · rw [Double.value_one] at hle
    obtain ⟨hfinite, hleast⟩ := sixteenth_le_part hp hle hn hn'
    exact isModerate_one_div hfinite hleast

/-- A step of at least one. -/
theorem isModerate_product (hd : d ≤ 10) (hp : p.isFinite = true) (hnonneg : 0 ≤ value p)
    (hle : value p ≤ 1001 * 10 ^ d) (hn : 1 ≤ n) (hn' : n ≤ 10) :
    ¬ p * Decimal.floatOfInt n < Decimal.floatOfInt 0 ∧ IsModerate d (p * Decimal.floatOfInt n) := by
  have hsmall : |n| ≤ 2 ^ 53 := abs_le.mpr ⟨by omega, by omega⟩
  have hn0 : (0 : ℚ) ≤ n := by exact_mod_cast (by omega : 0 ≤ n)
  have hn10 : (n : ℚ) ≤ 10 := by exact_mod_cast hn'
  have hproduct : 0 ≤ value p * n := mul_nonneg hnonneg hn0
  have hbound : value p * n ≤ 10010 * 10 ^ d := by
    calc value p * n ≤ 1001 * 10 ^ d * 10 := mul_le_mul hle hn10 hn0 (by positivity)
      _ = 10010 * 10 ^ d := by ring
  have hfits : (10010 * 10 ^ d : ℚ) ≤ 10 ^ 15 := by exact_mod_cast ten_pow_le hd
  have hrounded := Double.isRounded_mul hp (Double.isFinite_ofInt hsmall) (by
    rw [Double.value_floatOfInt hsmall, abs_of_nonneg hproduct]
    exact (hbound.trans hfits).trans_lt (Double.ten_pow_lt_overflow (by decide)))
  rw [Double.value_floatOfInt hsmall] at hrounded
  have hsize : 0 ≤ value (p * Decimal.floatOfInt n) := hrounded.nonneg hproduct
  refine ⟨?_, hrounded.isFinite, hsize, ?_⟩
  · rw [Double.lt_iff_value hrounded.isFinite (Double.isFinite_ofInt (by decide)), Double.value_floatOfInt (by decide)]
    simpa using hsize
  · have hwhole : |(10010 * 10 ^ d : ℤ)| ≤ 2 ^ 53 := by
      rw [abs_of_nonneg (by positivity)]
      exact (ten_pow_le hd).trans (by decide)
    exact_mod_cast hrounded.value_le (Double.isRepresentable_intCast hwhole) (by exact_mod_cast hbound)

end

variable {m : MathLibrary} [m.IsAccurate] {start stop : DoubleOf m} {count n : ℕ}

/-- The decimal logarithm of a part that is not too long, rounded down. -/
theorem floor_log10 {x : Float} (hd : d ≤ 10) (hx : x.isFinite = true) (hpos : 0 < value x)
    (hle : value x ≤ 9000 * 10 ^ d) :
    ∃ k : ℤ, k ≤ d + 3 ∧ (Decimal.floorFloat (m.log10 x)).isFinite = true ∧
      value (Decimal.floorFloat (m.log10 x)) = k := by
  have hpos' : (0 : ℝ) < value x := by exact_mod_cast hpos
  obtain ⟨hfinite, hnear⟩ := MathLibrary.IsAccurate.log10_near (m := m) hx hpos
  obtain ⟨hlow, hhigh⟩ := abs_le.mp hnear
  obtain ⟨hlow', hhigh'⟩ := abs_le.mp (Double.abs_logb_value_le hx hpos)
  have hnine : (9 : ℝ) ≤ 10 ^ (24 / 25 : ℝ) := by
    have hpower : ((10 : ℝ) ^ (24 / 25 : ℝ)) ^ 25 = 10 ^ 24 := by
      rw [← Real.rpow_natCast, ← Real.rpow_mul (by norm_num)]
      norm_num
    refine (pow_le_pow_iff_left₀ (by norm_num) (by positivity) (by decide : 25 ≠ 0)).mp ?_
    rw [hpower]
    norm_num
  have hlog : Real.logb 10 (value x) ≤ (d + 3 : ℕ) + 24 / 25 := by
    rw [Real.logb_le_iff_le_rpow (by norm_num) hpos', Real.rpow_add (by norm_num), Real.rpow_natCast, pow_add]
    have hle : (value x : ℝ) ≤ 9000 * 10 ^ d := by exact_mod_cast hle
    calc (value x : ℝ) ≤ 9000 * 10 ^ d := hle
      _ = 10 ^ d * 10 ^ 3 * 9 := by ring
      _ ≤ 10 ^ d * 10 ^ 3 * 10 ^ (24 / 25 : ℝ) := mul_le_mul_of_nonneg_left hnine (by positivity)
  have hsmall : ⌊value (m.log10 x)⌋ ≤ d + 3 := by
    refine Int.lt_add_one_iff.mp (Int.floor_lt.mpr ?_)
    have hreal : (value (m.log10 x) : ℝ) < (d + 3 : ℕ) + 1 := by linarith
    exact_mod_cast hreal
  have hlarge : -1075 ≤ ⌊value (m.log10 x)⌋ := by
    refine Int.le_floor.mpr ?_
    have hreal : (-1075 : ℝ) ≤ value (m.log10 x) := by linarith
    exact_mod_cast hreal
  exact ⟨_, hsmall, Double.value_floorFloat hfinite (abs_le.mpr ⟨by omega, by omega⟩)⟩

/-- The power of ten that a reciprocal is made of is not below one. -/
theorem one_le_pow_neg {power : Float} {k : ℤ} (hpower : power.isFinite = true) (hvalue : value power = k) (hk : k < 0) :
    Decimal.floatOfInt 1 ≤ m.pow (Decimal.floatOfInt 10) (-power) := by
  have hfinite := Double.isFinite_neg hpower
  have hneg : value (-power) = (-k : ℤ) := by rw [Double.value_neg hpower, hvalue, Int.cast_neg]
  by_cases hle : -k ≤ 300
  · obtain ⟨hpow, hnear⟩ := MathLibrary.IsAccurate.pow_near (m := m) hfinite
      (by rw [hneg]; exact_mod_cast (by omega : 0 ≤ -k)) (by rw [hneg]; exact_mod_cast hle)
    have hten : (10 : ℝ) ≤ 10 ^ (value (-power) : ℝ) := by
      refine Real.self_le_rpow_of_one_le (by norm_num) ?_
      rw [hneg]
      exact_mod_cast (by omega : 1 ≤ -k)
    have hone : (1 : ℝ) ≤ value (m.pow (Decimal.floatOfInt 10) (-power)) := by linarith [(abs_le.mp hnear).1]
    rw [Double.le_iff_value (Double.isFinite_ofInt (by decide)) hpow, Double.value_floatOfInt (by decide)]
    exact_mod_cast hone
  · refine MathLibrary.IsAccurate.one_le_pow ?_
    rw [Double.le_iff_value (Double.isFinite_ofInt (by decide)) hfinite, Double.value_floatOfInt (by decide), hneg]
    exact_mod_cast (by omega : 300 ≤ -k)

/-- The power of ten that a step of at least one is made of is not too large. -/
theorem pow_bounds {power : Float} {k : ℤ} (hd : d ≤ 10) (hpower : power.isFinite = true) (hvalue : value power = k)
    (hk : 0 ≤ k) (hk' : k ≤ d + 3) :
    (m.pow (Decimal.floatOfInt 10) power).isFinite = true ∧ 0 ≤ value (m.pow (Decimal.floatOfInt 10) power) ∧
      value (m.pow (Decimal.floatOfInt 10) power) ≤ 1001 * 10 ^ d := by
  obtain ⟨hpow, hnear⟩ := MathLibrary.IsAccurate.pow_near (m := m) hpower
    (by rw [hvalue]; exact_mod_cast hk) (by rw [hvalue]; exact_mod_cast (by omega : k ≤ 300))
  obtain ⟨hlow, hhigh⟩ := abs_le.mp hnear
  have hpos : (0 : ℝ) < 10 ^ (value power : ℝ) := Real.rpow_pos_of_pos (by norm_num) _
  have hlarge : (10 : ℝ) ^ (value power : ℝ) ≤ 1000 * 10 ^ d := by
    have hle : (value power : ℝ) ≤ (d + 3 : ℕ) := by
      rw [hvalue]
      exact_mod_cast hk'
    refine (Real.rpow_le_rpow_of_exponent_le (by norm_num) hle).trans ?_
    rw [Real.rpow_natCast, pow_add]
    linarith
  have hnonneg : (0 : ℝ) ≤ value (m.pow (Decimal.floatOfInt 10) power) := by linarith
  have hle : (value (m.pow (Decimal.floatOfInt 10) power) : ℝ) ≤ 1001 * 10 ^ d := by linarith
  exact ⟨hpow, by exact_mod_cast hnonneg, by exact_mod_cast hle⟩

/-- The step that an increment stands for. -/
def stepSize {α : Type} [Scalar α] (inc : α) : α := if inc < 0 then 1 / -inc else inc

/-- **A part that is not too long has a step that is not too long.** -/
theorem isModerate_stepSize {part : DoubleOf m} (hd : d ≤ 10) (hpart : (stop - start) / Scalar.ofInt n = part)
    (hfinite : part.toFloat.isFinite = true) (hnonneg : 0 ≤ value part.toFloat)
    (hle : value part.toFloat ≤ 9000 * 10 ^ d) :
    IsModerate d (stepSize (gridFor start stop n).increment).toFloat := by
  obtain ⟨factor, hfactor, hfactor', hinc⟩ := increment_gridFor start stop n
  rw [hinc, hpart]
  dsimp only
  rcases hnonneg.eq_or_lt with hzero | hpos
  · -- the logarithm of zero is negative infinity
    have hlog : Scalar.log10 part = Decimal.Numeral.toFloat (.infinite true) :=
      MathLibrary.IsAccurate.log10_zero hfinite hzero.symm
    have hpower : Scalar.floor (Scalar.log10 part) = Decimal.Numeral.toFloat (.infinite true) := by
      rw [hlog]
      rfl
    have hbelow : Scalar.floor (Scalar.log10 part) < 0 := by
      rw [hpower]
      show Decimal.Numeral.toFloat (.infinite true) < Decimal.floatOfInt 0
      decide
    have hpow : Decimal.floatOfInt 1 ≤ (Scalar.pow 10 (-Scalar.floor (Scalar.log10 part))).toFloat := by
      rw [hpower]
      refine MathLibrary.IsAccurate.one_le_pow (m := m) ?_
      show Decimal.floatOfInt 300 ≤ -Decimal.Numeral.toFloat (.infinite true)
      decide
    obtain ⟨hneg, hmoderate⟩ := isModerate_reciprocal hpow hfactor hfactor'
    rw [if_pos hbelow]
    exact (congrArg (IsModerate d) (if_pos hneg)).mpr hmoderate
  · obtain ⟨k, hk, hpower, hvalue⟩ := floor_log10 (m := m) hd hfinite hpos hle
    have hsign : Scalar.floor (Scalar.log10 part) < 0 ↔ k < 0 := by
      refine (Double.lt_iff_value hpower (Double.isFinite_ofInt (n := 0) (by decide))).trans ?_
      rw [hvalue, Double.value_floatOfInt (by decide)]
      norm_cast
    by_cases hneg : k < 0
    · obtain ⟨hneg', hmoderate⟩ :=
        isModerate_reciprocal (one_le_pow_neg (m := m) hpower hvalue hneg) hfactor hfactor'
      rw [if_pos (hsign.mpr hneg)]
      exact (congrArg (IsModerate d) (if_pos hneg')).mpr hmoderate
    · obtain ⟨hfinite', hnonneg', hle'⟩ := pow_bounds (m := m) hd hpower hvalue (not_lt.mp hneg) hk
      obtain ⟨hneg', hmoderate⟩ := isModerate_product hd hfinite' hnonneg' hle' hfactor hfactor'
      rw [if_neg (mt hsign.mp hneg)]
      exact (congrArg (IsModerate d) (if_neg hneg')).mpr hmoderate

/-- A single part is the whole. -/
theorem value_div_one {x : Float} (hx : x.isFinite = true) : value (x / Decimal.floatOfInt 1) = value x := by
  have hrounded := Double.isRounded_div hx (Double.isFinite_ofInt (n := 1) (by decide))
    (by rw [Double.value_one]; exact one_ne_zero) (by rw [Double.value_one, div_one]; exact Double.abs_value_lt x)
  rw [Double.value_one, div_one] at hrounded
  exact hrounded.value_eq (Double.isRepresentable_value x)

/-- An interval whose parts are not too long has a step that is not too long, also if two parts are tried instead of
one. -/
theorem isModerate_increment (hd : d ≤ 10) (hfinite : (stop - start).toFloat.isFinite = true)
    (hnonneg : 0 ≤ value (stop - start).toFloat) (hcount : 1 ≤ count)
    (hle : value ((stop - start) / Scalar.ofInt count).toFloat ≤ 9000 * 10 ^ d) :
    IsModerate d (stepSize (increment start stop count)).toFloat := by
  have hmoderate : ∀ n : ℕ, 1 ≤ n → value ((stop - start) / Scalar.ofInt n).toFloat ≤ 9000 * 10 ^ d →
      IsModerate d (stepSize (gridFor start stop n).increment).toFloat := by
    intro n hn hle
    obtain ⟨hpart, hpart', -⟩ := Double.div_count hfinite hnonneg (n := n) (by omega)
    exact isModerate_stepSize hd rfl hpart hpart' hle
  unfold increment grid
  dsimp only
  split
  next hone =>
    obtain ⟨rfl, -⟩ := hone
    obtain ⟨-, -, hhalf⟩ := Double.div_count hfinite hnonneg (n := 2) (by decide)
    exact hmoderate 2 (by decide) (hhalf.trans ((value_div_one hfinite).symm.trans_le hle))
  next => exact hmoderate count hcount hle

section

variable {m : MathLibrary} {x : DoubleOf m}

theorem lt_zero_iff (hx : x.toFloat.isFinite = true) : x < 0 ↔ value x.toFloat < 0 := by
  refine (Double.lt_iff_value hx (Double.isFinite_ofInt (n := 0) (by decide))).trans ?_
  rw [Double.value_floatOfInt (by decide), Int.cast_zero]

theorem value_abs (hx : x.toFloat.isFinite = true) :
    (Scalar.abs x).toFloat.isFinite = true ∧ value (Scalar.abs x).toFloat = |value x.toFloat| := by
  by_cases hneg : x < 0
  · have hsame : Scalar.abs x = -x := if_pos hneg
    rw [hsame, abs_of_neg ((lt_zero_iff hx).mp hneg)]
    exact ⟨Double.isFinite_neg hx, Double.value_neg hx⟩
  · have hsame : Scalar.abs x = x := if_neg hneg
    rw [hsame, abs_of_nonneg (not_lt.mp (mt (lt_zero_iff hx).mpr hneg))]
    exact ⟨hx, rfl⟩

theorem IsModerate.abs (h : IsModerate d x.toFloat) :
    IsModerate d (Scalar.abs x).toFloat ∧ IsModerate d (Scalar.abs (-x)).toFloat := by
  obtain ⟨hfinite, hvalue⟩ := value_abs h.isFinite
  obtain ⟨hfinite', hvalue'⟩ := value_abs (x := -x) (Double.isFinite_neg h.isFinite)
  have hneg : value (-x).toFloat = -value x.toFloat := Double.value_neg h.isFinite
  rw [abs_of_nonneg h.nonneg] at hvalue
  rw [hneg, abs_neg, abs_of_nonneg h.nonneg] at hvalue'
  exact ⟨⟨hfinite, hvalue.symm ▸ h.nonneg, hvalue.symm ▸ h.le⟩, hfinite', hvalue'.symm ▸ h.nonneg, hvalue'.symm ▸ h.le⟩

end

/-- **An interval whose parts are not too long has a step that is not too long**, whichever end it is given from. -/
theorem isModerate_abs_step {u v : DoubleOf m} (hd : d ≤ 10) (hu : u.toFloat.isFinite = true)
    (hv : v.toFloat.isFinite = true) (hless : |value v.toFloat - value u.toFloat| < Double.overflow) (hcount : 1 ≤ count)
    (hle : value (Scalar.abs (v - u) / Scalar.ofInt count).toFloat ≤ 9000 * 10 ^ d) :
    IsModerate d (Scalar.abs (step u v count)).toFloat := by
  have hlength : Double.IsRounded (v - u).toFloat (value v.toFloat - value u.toFloat) := Double.isRounded_sub hv hu hless
  have hzero : IsRepresentable 0 := by exact_mod_cast Double.isRepresentable_intCast (n := 0) (by decide)
  have hlt : v < u ↔ value v.toFloat < value u.toFloat := Double.lt_iff_value hv hu
  have hstep : step u v count
      = if v < u then -stepSize (increment v u count) else stepSize (increment u v count) := rfl
  rw [hstep]
  split
  next hreversed =>
    -- the difference the other way round has the same length
    have hback : value (u - v).toFloat = -value (v - u).toFloat := Double.value_sub_comm hv hu hless
    have hfinite : (u - v).toFloat.isFinite = true :=
      (Double.isRounded_sub hu hv (by rwa [abs_sub_comm])).isFinite
    have hnonpos : value (v - u).toFloat ≤ 0 :=
      hlength.value_le hzero (sub_nonpos.mpr (hlt.mp hreversed).le)
    have hnonneg : 0 ≤ value (u - v).toFloat := by
      rw [hback]
      exact neg_nonneg.mpr hnonpos
    have hpart : value ((u - v) / Scalar.ofInt count).toFloat ≤ 9000 * 10 ^ d := by
      by_cases hnone : value (u - v).toFloat = 0
      · obtain ⟨-, -, hsmall⟩ := Double.div_count hfinite hnonneg (n := count) (by omega)
        exact (hsmall.trans hnone.le).trans (by positivity)
      · obtain ⟨habs, hvalue⟩ := value_abs hlength.isFinite
        have hlengths := hback.trans ((abs_of_nonpos hnonpos).symm.trans hvalue.symm)
        have hsame : u - v = Scalar.abs (v - u) :=
          Double.eq_of_value_eq hfinite habs hlengths fun hnothing => hnone (hlengths.trans hnothing)
        rwa [hsame]
    exact (isModerate_increment hd hfinite hnonneg hcount hpart).abs.2
  next hsorted =>
    have hnonneg : 0 ≤ value (v - u).toFloat :=
      hlength.nonneg (sub_nonneg.mpr (not_lt.mp (mt hlt.mpr hsorted)))
    have hsame : Scalar.abs (v - u) = v - u := if_neg (mt (lt_zero_iff hlength.isFinite).mp (not_lt.mpr hnonneg))
    rw [hsame] at hle
    exact (isModerate_increment hd hlength.isFinite hnonneg hcount hle).abs.1

end Ticks

end VisualEncoding
