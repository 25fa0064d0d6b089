import VisualEncoding.Proofs.Scalar.Powers

/-!
# Logarithms and powers of a base

In exact arithmetic the logarithm to a base is that of the real numbers, whichever function it is computed by
(`Extended.log_finite`), and a power of the base is that of the real numbers, multiplied out or not
(`Extended.exp_finite`). On a negative domain both are reflected; they still undo each other there. With a base above
one they keep the order of the numbers, with a base below one they turn it round.
-/

namespace VisualEncoding

open Extended (finite infinite)

/-! ## Two sides of zero -/

/-- The numbers that have a logarithm: the positive ones, the negative ones if the domain is reflected. -/
def OnSide (reflected : Bool) (x : ℝ) : Prop := 0 < if reflected then -x else x

/-- The logarithm of a number on its side of zero. -/
noncomputable def sideLog (base : ℝ) (reflected : Bool) (x : ℝ) : ℝ :=
  if reflected then -Real.logb base (-x) else Real.logb base x

/-- The number with a logarithm, on its side of zero. -/
noncomputable def sidePow (base : ℝ) (reflected : Bool) (t : ℝ) : ℝ :=
  if reflected then -base ^ (-t) else base ^ t

variable {base x y t u : ℝ} {reflected : Bool} {k : ℤ}

/-- Numbers of one sign are on the side that the sign of the first tells. -/
theorem onSide_of_sign (h : 0 < x ∧ 0 < y ∨ x < 0 ∧ y < 0) :
    OnSide (decide (x < 0)) x ∧ OnSide (decide (x < 0)) y := by
  rcases h with ⟨hx, hy⟩ | ⟨hx, hy⟩
  · rw [decide_eq_false hx.not_gt]
    exact ⟨hx, hy⟩
  · rw [decide_eq_true hx]
    exact ⟨neg_pos.mpr hx, neg_pos.mpr hy⟩

theorem OnSide.decide_lt (h : OnSide reflected x) : decide (x < 0) = reflected := by
  cases reflected with
  | false => exact decide_eq_false (lt_asymm h)
  | true => exact decide_eq_true (neg_pos.mp h)

theorem OnSide.min (hx : OnSide reflected x) (hy : OnSide reflected y) : OnSide reflected (min x y) := by
  rcases min_choice x y with h | h
  · rwa [h]
  · rwa [h]

theorem sidePow_onSide (hbase : 0 < base) (reflected : Bool) (t : ℝ) : OnSide reflected (sidePow base reflected t) := by
  cases reflected with
  | false => exact Real.rpow_pos_of_pos hbase t
  | true =>
    show 0 < - -base ^ (-t)
    rw [neg_neg]
    exact Real.rpow_pos_of_pos hbase (-t)

theorem sidePow_sideLog (hbase : 0 < base) (hone : base ≠ 1) (hx : OnSide reflected x) :
    sidePow base reflected (sideLog base reflected x) = x := by
  cases reflected with
  | false => exact Real.rpow_logb hbase hone hx
  | true =>
    have hpos : 0 < -x := hx
    show -base ^ (- -Real.logb base (-x)) = x
    rw [neg_neg, Real.rpow_logb hbase hone hpos, neg_neg]

theorem sideLog_sidePow (hbase : 0 < base) (hone : base ≠ 1) (reflected : Bool) (t : ℝ) :
    sideLog base reflected (sidePow base reflected t) = t := by
  cases reflected with
  | false => exact Real.logb_rpow hbase hone
  | true =>
    show -Real.logb base (- -base ^ (-t)) = t
    rw [neg_neg, Real.logb_rpow hbase hone, neg_neg]

/-- Powers of a base above one keep the order, -/
theorem sidePow_strictMono (hbase : 1 < base) (reflected : Bool) : StrictMono (sidePow base reflected) := by
  intro t u h
  cases reflected with
  | false => exact Real.rpow_lt_rpow_of_exponent_lt hbase h
  | true => exact neg_lt_neg (Real.rpow_lt_rpow_of_exponent_lt hbase (neg_lt_neg h))

/-- and those of a base below one turn it round. -/
theorem sidePow_strictAnti (hbase : 0 < base) (hone : base < 1) (reflected : Bool) :
    StrictAnti (sidePow base reflected) := by
  intro t u h
  cases reflected with
  | false => exact Real.rpow_lt_rpow_of_exponent_gt hbase hone h
  | true => exact neg_lt_neg (Real.rpow_lt_rpow_of_exponent_gt hbase hone (neg_lt_neg h))

theorem sideLog_strictMonoOn (hbase : 1 < base) (reflected : Bool) :
    StrictMonoOn (sideLog base reflected) {x | OnSide reflected x} := by
  intro x hx y hy h
  rw [← (sidePow_strictMono hbase reflected).lt_iff_lt, sidePow_sideLog (by linarith) hbase.ne' hx,
    sidePow_sideLog (by linarith) hbase.ne' hy]
  exact h

theorem sideLog_strictAntiOn (hbase : 0 < base) (hone : base < 1) (reflected : Bool) :
    StrictAntiOn (sideLog base reflected) {x | OnSide reflected x} := by
  intro x hx y hy h
  rw [← (sidePow_strictAnti hbase hone reflected).lt_iff_gt, sidePow_sideLog hbase hone.ne hx,
    sidePow_sideLog hbase hone.ne hy]
  exact h

/-- Whole logarithms are those of whole powers, with the sign of the side. -/
theorem sidePow_intCast (base : ℝ) (reflected : Bool) (k : ℤ) :
    sidePow base reflected k = if reflected then -base ^ (-k) else base ^ k := by
  cases reflected with
  | false => exact Real.rpow_intCast base k
  | true =>
    show -base ^ (-(k : ℝ)) = -base ^ (-k)
    rw [← Int.cast_neg, Real.rpow_intCast]

namespace Extended

/-! ## Logarithms -/

theorem logb_of_pos {b : ℝ} (hx : 0 < x) : logb b (finite x) = finite (Real.logb b x) := by
  show (if x < 0 then undefined else if x = 0 then infinite true else finite (Real.logb b x)) = _
  rw [if_neg hx.not_gt, if_neg hx.ne']

/-- The logarithm to a base is the one of the real numbers. -/
theorem log_finite (hbase : 0 < base) (hone : base ≠ 1) (hx : 0 < x) :
    Scalar.log (finite base) (finite x) = finite (Real.logb base x) := by
  unfold Scalar.log
  split
  next h =>
    rw [ofNat_eq, finite_beq] at h
    rw [h]
    exact logb_of_pos hx
  · split
    next h =>
      rw [ofNat_eq, finite_beq] at h
      rw [h]
      exact logb_of_pos hx
    · split
      next h =>
        rw [finite_beq.mp h]
        exact logb_of_pos hx
      · show logb (Real.exp 1) (finite x) / logb (Real.exp 1) (finite base) = _
        have hlog : Real.log base ≠ 0 := Real.log_ne_zero_of_pos_of_ne_one hbase hone
        have hexp : Real.log (Real.exp 1) = 1 := Real.log_exp 1
        rw [logb_of_pos hx, logb_of_pos hbase, Real.logb, Real.logb, hexp, div_one, div_one, finite_div hlog]
        rfl

theorem reflectedLog_finite (hbase : 0 < base) (hone : base ≠ 1) (hx : OnSide reflected x) :
    Scalar.reflectedLog (finite base) reflected (finite x) = finite (sideLog base reflected x) := by
  cases reflected with
  | false => exact log_finite hbase hone hx
  | true => exact congrArg Neg.neg (log_finite hbase hone hx)

/-! ## Powers -/

/-- Squaring again and again multiplies out a power. -/
theorem powNatAux_finite (x acc : ℝ) (n : ℕ) :
    Scalar.powNatAux (finite x) (finite acc) n = finite (acc * x ^ n) := by
  induction n using Nat.strong_induction_on generalizing x acc with
  | h n ih =>
    unfold Scalar.powNatAux
    split
    next hsmall =>
      split
      next hn => rw [hn, pow_one, finite_mul]
      next hn => rw [show n = 0 by omega, pow_zero, mul_one]
    next hlarge =>
      have hacc : (if n % 2 = 1 then finite acc * finite x else finite acc) = finite (acc * x ^ (n % 2)) := by
        split
        next hodd => rw [hodd, pow_one, finite_mul]
        next heven => rw [show n % 2 = 0 by omega, pow_zero, mul_one]
      rw [hacc, finite_mul, ih (n / 2) (by omega), ← pow_two, ← pow_mul, mul_assoc, ← pow_add, Nat.mod_add_div]

theorem powInt_finite (hx : x ≠ 0) (n : ℤ) : Scalar.powInt (finite x) n = finite (x ^ n) := by
  unfold Scalar.powInt
  rw [one_eq, powNatAux_finite, one_mul]
  split
  next h =>
    obtain ⟨k, hk⟩ := Int.eq_ofNat_of_zero_le (show 0 ≤ -n by omega)
    obtain rfl : n = -k := by omega
    rw [finite_div (pow_ne_zero _ hx), Int.natAbs_neg, Int.natAbs_natCast, zpow_neg, zpow_natCast, one_div]
  next h =>
    obtain ⟨k, rfl⟩ := Int.eq_ofNat_of_zero_le (not_lt.mp h)
    rw [Int.natAbs_natCast, zpow_natCast]

theorem pow_of_pos (hx : 0 < x) (y : ℝ) : Scalar.pow (finite x) (finite y) = finite (x ^ y) := by
  show powFinite x y = _
  unfold powFinite
  by_cases hy : y = 0
  · rw [if_pos hy, hy, Real.rpow_zero]
  · rw [if_neg hy, if_neg hx.ne', if_pos hx]

theorem abs_finite (x : ℝ) : Scalar.abs (finite x) = finite |x| := by
  unfold Scalar.abs
  rw [zero_eq, neg_finite]
  split
  next h => rw [abs_of_neg (finite_lt.mp h)]
  next h => rw [abs_of_nonneg (not_lt.mp fun hlt => h (finite_lt.mpr hlt))]

/-- Whole numbers that fit are read as they are. -/
theorem toInt32_intCast (hlo : -0x80000000 ≤ k) (hhi : k ≤ 0x7FFFFFFF) : Scalar.toInt32 (finite k) = k := by
  unfold Scalar.toInt32 Scalar.truncateWithin
  show max _ (min _ (truncate (finite k))) = k
  rw [truncate_intCast]
  omega

theorem isWhole_iff : Scalar.isWhole (finite x) = true ↔ ∃ k : ℤ, x = k := by
  unfold Scalar.isWhole
  rw [isFinite_finite, Bool.true_and, floor_finite, finite_beq]
  constructor
  · exact fun h => ⟨⌊x⌋, h.symm⟩
  · rintro ⟨k, rfl⟩
    rw [Int.floor_intCast]

/-- A power of a base is the one of the real numbers, multiplied out or not. -/
theorem exp_finite (hbase : 0 < base) (y : ℝ) : Scalar.exp (finite base) (finite y) = finite (base ^ y) := by
  unfold Scalar.exp
  split
  next h =>
    rw [Bool.and_eq_true, isWhole_iff, decide_eq_true_eq, abs_finite, ofNat_eq, finite_le] at h
    obtain ⟨⟨k, rfl⟩, hsmall⟩ := h
    have hk : |k| ≤ 22 := by exact_mod_cast hsmall
    obtain ⟨hlo, hhi⟩ := abs_le.mp hk
    rw [toInt32_intCast (by omega) (by omega), powInt_finite hbase.ne', Real.rpow_intCast]
  · exact pow_of_pos hbase y

theorem reflectedExp_finite (hbase : 0 < base) (reflected : Bool) (t : ℝ) :
    Scalar.reflectedExp (finite base) reflected (finite t) = finite (sidePow base reflected t) := by
  cases reflected with
  | false => exact exp_finite hbase t
  | true => exact congrArg Neg.neg (exp_finite hbase (-t))

end Extended

end VisualEncoding
