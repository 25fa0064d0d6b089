import VisualEncoding.Proofs.Decimal.Shortest
import VisualEncoding.Proofs.Scalar.Scaling

/-!
# Decimal numbers and doubles

The interval of a double is made of the numbers that are rounded to it (`isRounded_of_isWithin`,
`isWithin_of_isRounded`). A decimal number of few digits is not halfway between two doubles, because it would need more
bits than it has (`isRepresentable_of_dyadic`), so it rounds to one of them only (`IsRounded.value_unique`).

> `shortest_of_isRounded`: a double that a decimal number of fifteen digits rounds to is written with as many digits
> or fewer, and they round to it.
-/

namespace VisualEncoding.Double

open Decimal (IsWithin IsInside topPower shortest)

variable {x y : Float} {m : ℕ} {e : ℤ} {hm : 0 < m} {q r : ℚ}

/-! ## The interval of a double -/

theorem roundingInterval_of_finer (h : ¬ (m = 2 ^ 52 ∧ -1074 < e)) :
    Decimal.roundingInterval m e = (4 * m - 2, 4 * m + 2) := by
  have hnot : ¬ (m == Decimal.leastNormal && decide (-1074 < e)) = true := by
    rw [Bool.and_eq_true, beq_iff_eq, decide_eq_true_eq]
    exact h
  unfold Decimal.roundingInterval
  rw [if_neg hnot]

theorem roundingInterval_of_coarser (h : -1074 < e) :
    Decimal.roundingInterval (2 ^ 52) e = (4 * 2 ^ 52 - 1, 4 * 2 ^ 52 + 2) := by
  unfold Decimal.roundingInterval
  rw [if_pos]
  rw [decide_eq_true h]
  rfl

theorem quarter_eq (e : ℤ) : (2 : ℚ) ^ (e - 2) = 2 ^ e / 4 := by
  rw [zpow_sub₀ two_ne_zero]
  norm_num

theorem isWithin_iff_of_finer (hm : 0 < m) (h : ¬ (m = 2 ^ 52 ∧ -1074 < e)) :
    IsWithin m e q ↔ m * 2 ^ e - 2 ^ e / 2 ≤ q ∧ q ≤ m * 2 ^ e + 2 ^ e / 2 := by
  have hlow : ((4 * m - 2 : ℕ) : ℚ) = 4 * m - 2 := by
    rw [Nat.cast_sub (by omega)]
    push_cast
    rfl
  unfold IsWithin
  rw [roundingInterval_of_finer h, quarter_eq, hlow]
  push_cast
  constructor <;> rintro ⟨hle, hge⟩ <;> constructor <;> linarith

theorem isWithin_iff_of_coarser (h : -1074 < e) :
    IsWithin (2 ^ 52) e q ↔ 2 ^ 52 * 2 ^ e - 2 ^ e / 4 ≤ q ∧ q ≤ 2 ^ 52 * 2 ^ e + 2 ^ e / 2 := by
  unfold IsWithin
  rw [roundingInterval_of_coarser h, quarter_eq]
  push_cast
  constructor <;> rintro ⟨hle, hge⟩ <;> constructor <;> linarith

theorem isFinite_of_unpack (hx : x.toModel.unpack = .finite .positive m e hm) : x.isFinite = true := by
  show x.toModel.unpack.isFinite = true
  rw [hx]
  rfl

theorem value_of_unpack (hx : x.toModel.unpack = .finite .positive m e hm) : value x = m * 2 ^ e := by
  unfold value
  rw [hx]
  rfl

/-- A double is rounded from what lies in its interval. -/
theorem isRounded_of_isWithin (hx : x.toModel.unpack = .finite .positive m e hm) (h : IsWithin m e q) :
    IsRounded x q := by
  have hcanonical := isCanonical_of_unpack hx
  have hvalue := value_of_unpack hx
  have hpos := two_zpow_pos e
  have hfinite := isFinite_of_unpack hx
  -- within half a unit a double is the nearest if it has 53 bits
  have hnear (hlow : m * 2 ^ e - 2 ^ e / 2 ≤ q) (hhigh : q ≤ m * 2 ^ e + 2 ^ e / 2)
      (hfine : e = -1074 ∨ 2 ^ 52 * 2 ^ e ≤ q) : IsRounded x q :=
    isRounded_of_le_half (s := .positive) (n := m) hfinite (by exact_mod_cast hvalue)
      (abs_le.mpr ⟨by push_cast; linarith, by push_cast; linarith⟩)
      (hfine.imp_right fun hle => hle.trans (le_abs_self q))
  by_cases hleast : m = 2 ^ 52 ∧ -1074 < e
  · obtain ⟨rfl, hexponent⟩ := hleast
    obtain ⟨hlow, hhigh⟩ := (isWithin_iff_of_coarser hexponent).mp h
    push_cast at hvalue hnear
    rcases le_or_gt (2 ^ 52 * 2 ^ e) q with hle | hgt
    · exact hnear (by linarith) hhigh (.inr hle)
    · -- below a power of two the doubles are twice as dense
      have hunit : (2 : ℚ) ^ e = 2 * 2 ^ (e - 1) := by rw [← zpow_one_add₀ two_ne_zero, add_sub_cancel]
      rw [hunit] at hlow hgt hvalue
      refine isRounded_of_le_half (s := .positive) (n := 2 ^ 53) (t := e - 1) hfinite (hvalue.trans ?_)
        (abs_le.mpr ⟨?_, ?_⟩) (.inr (le_trans ?_ (le_abs_self q)))
      · show 2 ^ 52 * (2 * 2 ^ (e - 1)) = ((2 ^ 53 : ℤ) : ℚ) * 2 ^ (e - 1)
        push_cast
        ring
      all_goals
        push_cast
        linarith [two_zpow_pos (e - 1)]
  · obtain ⟨hlow, hhigh⟩ := (isWithin_iff_of_finer hm hleast).mp h
    refine hnear hlow hhigh ?_
    by_cases hmin : e = -1074
    · exact .inl hmin
    have hmore : 2 ^ 52 < m := lt_of_le_of_ne (hcanonical.normal.resolve_right hmin)
      fun heq => hleast ⟨heq.symm, lt_of_le_of_ne hcanonical.le_exponent (Ne.symm hmin)⟩
    have hmore : (2 : ℚ) ^ 52 + 1 ≤ m := by exact_mod_cast hmore
    exact .inr (by linarith [mul_le_mul_of_nonneg_right hmore hpos.le])

/-- No double is nearer to a number than to be on its side of the middle. -/
theorem le_middle {v : ℚ} (h : |v - q| ≤ |r - q|) (hlt : v < r) : q ≤ (v + r) / 2 := by
  by_contra hnot
  rw [abs_of_neg (by linarith)] at h
  rcases abs_cases (r - q) with ⟨habs, -⟩ | ⟨habs, -⟩ <;> linarith

theorem middle_le {v : ℚ} (h : |v - q| ≤ |r - q|) (hlt : r < v) : (v + r) / 2 ≤ q := by
  by_contra hnot
  rw [abs_of_pos (by linarith)] at h
  rcases abs_cases (r - q) with ⟨habs, -⟩ | ⟨habs, -⟩ <;> linarith

/-- What a double is rounded from lies in its interval: the neighbours are no nearer. -/
theorem isWithin_of_isRounded (hx : x.toModel.unpack = .finite .positive m e hm) (h : IsRounded x q) :
    IsWithin m e q := by
  have hcanonical := isCanonical_of_unpack hx
  have hnearest := h.nearest
  rw [value_of_unpack hx] at hnearest
  have hpos := two_zpow_pos e
  have hlt := hcanonical.lt
  have hunits (n : ℤ) (hn : |n| ≤ 2 ^ 53) : IsRepresentable (n * 2 ^ e) :=
    isRepresentable_mul_zpow hn hcanonical.le_exponent
  have habove : q ≤ m * 2 ^ e + 2 ^ e / 2 := by
    have hnext := hnearest _ (hunits (m + 1) (abs_le.mpr ⟨by omega, by omega⟩))
    push_cast at hnext
    linarith [le_middle hnext (by linarith)]
  by_cases hleast : m = 2 ^ 52 ∧ -1074 < e
  · obtain ⟨rfl, hexponent⟩ := hleast
    refine (isWithin_iff_of_coarser hexponent).mpr ⟨?_, by exact_mod_cast habove⟩
    have hunit : (2 : ℚ) ^ e = 2 * 2 ^ (e - 1) := by rw [← zpow_one_add₀ two_ne_zero, add_sub_cancel]
    have hprevious := hnearest ((2 ^ 53 - 1 : ℤ) * 2 ^ (e - 1)) ⟨2 ^ 53 - 1, e - 1, by decide, by omega, rfl⟩
    push_cast at hprevious
    rw [hunit] at hprevious ⊢
    linarith [middle_le hprevious (by linarith [two_zpow_pos (e - 1)])]
  · refine (isWithin_iff_of_finer hm hleast).mpr ⟨?_, habove⟩
    have hprevious := hnearest _ (hunits (m - 1) (abs_le.mpr ⟨by omega, by omega⟩))
    push_cast at hprevious
    linarith [middle_le hprevious (by linarith)]

/-! ## Decimals of few digits -/

variable {d n : ℕ}

/-- A decimal number of few digits that is a multiple of a power of two is representable: its denominator has no
fives. -/
theorem isRepresentable_of_dyadic {a t : ℤ} (hd : d < 2 ^ 53) (hn : n ≤ 1074) (h : (d : ℚ) / 10 ^ n = a * 2 ^ t) :
    IsRepresentable (d / 10 ^ n) := by
  obtain ⟨k, hk⟩ : ∃ k : ℕ, 0 ≤ t + n + k := ⟨(-(t + n)).toNat, by omega⟩
  have hten : (10 : ℚ) ^ n = 2 ^ n * 5 ^ n := by rw [← mul_pow]; norm_num
  have hfives : (d * 2 ^ k : ℤ) = 5 ^ n * (a * 2 ^ (t + n + k).toNat) := by
    have hcast : (d : ℚ) * 2 ^ k = 5 ^ n * (a * 2 ^ (t + n + k)) := by
      rw [div_eq_iff (by positivity)] at h
      rw [h, hten, zpow_add₀ two_ne_zero, zpow_add₀ two_ne_zero, zpow_natCast, zpow_natCast]
      ring
    rw [← Int.toNat_of_nonneg hk, zpow_natCast] at hcast
    exact_mod_cast hcast
  have hdvd : (5 : ℤ) ^ n ∣ d := by
    have hcoprime : IsCoprime ((5 : ℤ) ^ n) (2 ^ k) := (show IsCoprime (5 : ℤ) 2 from ⟨1, -2, by decide⟩).pow
    exact hcoprime.dvd_of_dvd_mul_right ⟨_, hfives⟩
  obtain ⟨b, hb⟩ : 5 ^ n ∣ d := by exact_mod_cast hdvd
  refine ⟨b, -n, ?_, by omega, ?_⟩
  · rw [Nat.abs_cast]
    have hle : b ≤ d := hb ▸ Nat.le_mul_of_pos_left b (Nat.pow_pos (by decide))
    exact_mod_cast hle.trans_lt hd
  · rw [hb, hten, zpow_neg, zpow_natCast]
    push_cast
    field_simp

/-- A decimal number of few digits is not halfway between two doubles, so it rounds to one only. -/
theorem IsRounded.value_unique (hd : d < 2 ^ 53) (hn : n ≤ 1074) (hx : IsRounded x (d / 10 ^ n))
    (hy : IsRounded y (d / 10 ^ n)) : value x = value y := by
  have hle := hx.nearest _ (isRepresentable_value y)
  have hge := hy.nearest _ (isRepresentable_value x)
  rcases abs_eq_abs.mp (le_antisymm hle hge) with heq | hopposite
  · linarith
  · -- halfway it would be a multiple of a power of two
    obtain ⟨k, t, -, -, hk⟩ := isRepresentable_value x
    obtain ⟨k', t', -, -, hk'⟩ := isRepresentable_value y
    have hrepresentable : IsRepresentable (d / 10 ^ n) := by
      refine isRepresentable_of_dyadic (a := k * 2 ^ (t - min t t').toNat + k' * 2 ^ (t' - min t t').toNat)
        (t := min t t' - 1) hd hn ?_
      have hcommon (u : ℤ) (hu : min t t' ≤ u) : (2 : ℚ) ^ u = 2 ^ (u - min t t').toNat * 2 ^ min t t' := by
        rw [← zpow_natCast, ← zpow_add₀ two_ne_zero]
        congr 1
        omega
      rw [hcommon t (min_le_left _ _)] at hk
      rw [hcommon t' (min_le_right _ _)] at hk'
      rw [zpow_sub_one₀ two_ne_zero]
      push_cast
      linarith
    rw [hx.value_eq hrepresentable, hy.value_eq hrepresentable]

/-- It lies inside the interval of the double that it rounds to. -/
theorem isInside_of_isRounded (hd : d < 2 ^ 53) (hn : n ≤ 1074) (hx : x.toModel.unpack = .finite .positive m e hm)
    (h : IsRounded x (d / 10 ^ n)) : IsInside m e (d / 10 ^ n) := by
  obtain ⟨hlow, hhigh⟩ := isWithin_of_isRounded hx h
  obtain ⟨hlow', hhigh'⟩ := Decimal.isInside_self hm e
  -- at an end it would be representable, and so the double itself
  have hend (a : ℕ) (heq : (d : ℚ) / 10 ^ n = a * 2 ^ (e - 2)) : (a : ℚ) * 2 ^ (e - 2) = m * 2 ^ e := by
    rw [← heq, ← value_of_unpack hx]
    exact (h.value_eq (isRepresentable_of_dyadic (a := a) hd hn (by exact_mod_cast heq))).symm
  refine ⟨lt_of_le_of_ne hlow fun heq => ?_, lt_of_le_of_ne hhigh fun heq => ?_⟩
  · exact absurd (hend _ heq.symm) hlow'.ne
  · exact absurd (hend _ heq) hhigh'.ne'

/-- What lies in the interval of a double is at most half of it above. -/
theorem le_three_halves (hm : 0 < m) (h : IsWithin m e q) : q ≤ 3 / 2 * (m * 2 ^ e) := by
  have hone : (1 : ℚ) ≤ m := by exact_mod_cast hm
  have hhigh : q ≤ ((4 * m + 2 : ℕ) : ℚ) * 2 ^ (e - 2) := h.2
  rw [quarter_eq] at hhigh
  push_cast at hhigh
  linarith [mul_le_mul_of_nonneg_right hone (two_zpow_pos e).le]

/-- On one of the grids of up to fifteen digits a number is found inside the interval of the double: the given number,
or the power of ten between it and the double. -/
theorem exists_isInside (hd : d < 10 ^ 15) (hpos : 0 < d) (hm : 0 < m) (hinside : IsInside m e (d * 10 ^ (-n : ℤ))) :
    ∃ k c : ℕ, k ≤ 14 ∧ IsInside m e (c * 10 ^ (topPower m e - k)) ∧ -(n : ℤ) - 1 ≤ topPower m e - k := by
  have hself := Decimal.isInside_self hm e
  obtain ⟨hlow, hhigh⟩ := Decimal.topPower_spec hm e
  have hone : (1 : ℚ) ≤ d := by exact_mod_cast hpos
  have hreaches (p : ℤ) (hp : p ≤ -n) : (10 : ℚ) ^ p ≤ d * 10 ^ (-n : ℤ) :=
    (zpow_le_zpow_right₀ (by norm_num) hp).trans (le_mul_of_one_le_left (Decimal.ten_zpow_pos _).le hone)
  rcases lt_or_ge (topPower m e + n) 0 with hsmall | hsmall
  · -- the double is below a power of ten that the number reaches
    have hten : ((10 : ℕ) : ℚ) * 10 ^ (topPower m e - (0 : ℕ)) = 10 ^ (topPower m e + 1) := by
      rw [zpow_add_one₀ (by norm_num), Nat.cast_zero, sub_zero]
      push_cast
      ring
    refine ⟨0, 10, by decide, hten.symm ▸ hself.between hinside hhigh.le (hreaches _ (by omega)), ?_⟩
    -- but not ten times below, as the interval is narrower
    by_contra hfar
    have hpower : 10 * (10 : ℚ) ^ (topPower m e + 1) ≤ d * 10 ^ (-n : ℤ) := by
      rw [← zpow_one_add₀ (by norm_num)]
      exact hreaches _ (by omega)
    have hwide := le_three_halves hm hinside.isWithin
    linarith [Decimal.ten_zpow_pos (topPower m e + 1)]
  rcases lt_or_ge (topPower m e + n) 15 with hfew | hmany
  · -- the number itself
    have hplace : topPower m e - ((topPower m e + n).toNat : ℕ) = -n := by omega
    exact ⟨(topPower m e + n).toNat, d, by omega, hplace.symm ▸ hinside, by omega⟩
  · -- the double has reached a power of ten that the number is below
    have hunit : ((1 : ℕ) : ℚ) * 10 ^ (topPower m e - (0 : ℕ)) = 10 ^ topPower m e := by
      rw [Nat.cast_one, one_mul, Nat.cast_zero, sub_zero]
    have hle : (d : ℚ) * 10 ^ (-n : ℤ) ≤ 10 ^ topPower m e := by
      have hd : (d : ℚ) ≤ 10 ^ (15 : ℤ) := by exact_mod_cast hd.le
      calc (d : ℚ) * 10 ^ (-n : ℤ) ≤ 10 ^ (15 : ℤ) * 10 ^ (-n : ℤ) :=
            mul_le_mul_of_nonneg_right hd (Decimal.ten_zpow_pos _).le
        _ = 10 ^ (15 + -n : ℤ) := (zpow_add₀ (by norm_num) _ _).symm
        _ ≤ 10 ^ topPower m e := zpow_le_zpow_right₀ (by norm_num) (by omega)
    exact ⟨0, 1, by decide, hunit.symm ▸ hinside.between hself hle hlow, by omega⟩

/-- **A double that a decimal number of fifteen digits rounds to** is written with digits that round to it. They are not
more than fifteen, or the least number of sixteen, and end at most one place farther behind the point. -/
theorem shortest_of_isRounded (hd : d < 10 ^ 15) (hpos : 0 < d) (hn : n ≤ 1074)
    (hx : x.toModel.unpack = .finite .positive m e hm) (h : IsRounded x (d / 10 ^ n)) :
    IsRounded x ((shortest m e).digits * 10 ^ (shortest m e).exponent) ∧ (shortest m e).digits ≤ 10 ^ 15 ∧
      -(n : ℤ) - 1 ≤ (shortest m e).exponent := by
  have hinside := isInside_of_isRounded (hd.trans (by decide)) hn hx h
  have hscale : (d : ℚ) / 10 ^ n = d * 10 ^ (-n : ℤ) := by rw [zpow_neg, zpow_natCast, div_eq_mul_inv]
  rw [hscale] at hinside
  obtain ⟨k, c, hk, hgrid, hexponent⟩ := exists_isInside hd hpos hm hinside
  obtain ⟨hwithin, hdigits, hleast⟩ := Decimal.shortest_spec hm (by omega) hgrid
  exact ⟨isRounded_of_isWithin hx hwithin, hdigits.trans (Nat.pow_le_pow_right (by decide) (by omega)), by omega⟩

/-! ## The nearest doubles -/

/-- The powers of ten up to the twenty-second are doubles. -/
theorem value_nearest_ten (hn : n ≤ 22) : value (Decimal.nearest 1 n) = 10 ^ n := by
  have hfives : (5 : ℤ) ^ n < 2 ^ 53 :=
    (pow_le_pow_right₀ (by decide) hn).trans_lt (by decide : (5 : ℤ) ^ 22 < 2 ^ 53)
  refine (isRounded_nearest (by omega)).value_eq ⟨5 ^ n, n, ?_, by omega, ?_⟩
  · rwa [abs_of_pos (by positivity)]
  · push_cast
    rw [zpow_natCast, ← mul_pow]
    norm_num

/-- A decimal number of few digits is rounded to a double. -/
theorem isRounded_nearest_div (hpos : 0 < d) (hd : d < 10 ^ 15) (hn : n ≤ 21) :
    IsRounded (Decimal.nearest d (-n)) (d / 10 ^ n) := by
  have hcount : Decimal.digitCount d ≤ 15 := (Nat.length_toDigits_le_iff (by decide) (by decide)).mpr hd
  have hratio : Decimal.nearest d (-(n : ℤ)) = Decimal.nearestRatio d (10 ^ n) := by
    have hnum : (-(n : ℤ)).toNat = 0 := by omega
    unfold Decimal.nearest Decimal.BinaryFormat.nearest Decimal.powerRatio
    rw [if_neg (by simpa using hpos.ne'), if_neg (by omega), if_neg (by omega), hnum, neg_neg, Int.toNat_natCast]
    dsimp only
    rw [show Nat.pow 10 0 = 1 from rfl, Nat.mul_one]
    rfl
  have hless : (d : ℚ) / (10 ^ n : ℕ) < overflow := by
    push_cast
    refine (div_le_self (Nat.cast_nonneg _) (one_le_pow₀ (by norm_num))).trans_lt ?_
    have hd : (d : ℚ) < 10 ^ 15 := by exact_mod_cast hd
    exact hd.trans (ten_pow_lt_overflow (by decide))
  have hrounded := isRounded_nearestRatio (Nat.pow_pos (by decide)) hless
  rw [← hratio] at hrounded
  exact_mod_cast hrounded

/-- It is a positive double. -/
theorem exists_unpack_nearest (hpos : 0 < d) (hd : d < 10 ^ 15) (hn : n ≤ 21) :
    ∃ m e hm, (Decimal.nearest d (-n)).toModel.unpack = .finite .positive m e hm := by
  have hrounded := isRounded_nearest_div hpos hd hn
  have hleast : (2 : ℚ) ^ (-70 : ℤ) ≤ value (Decimal.nearest d (-n)) := by
    refine hrounded.le_value ⟨1, -70, by decide, by decide, by simp⟩ ?_
    have hone : (1 : ℚ) ≤ d := by exact_mod_cast hpos
    calc (2 : ℚ) ^ (-70 : ℤ) ≤ 1 / 10 ^ 21 := by norm_num
      _ ≤ 1 / 10 ^ n := one_div_le_one_div_of_le (by positivity) (pow_le_pow_right₀ (by norm_num) hn)
      _ ≤ d / 10 ^ n := div_le_div_of_nonneg_right hone (by positivity)
  have hvalue : 0 < value (Decimal.nearest d (-n)) := (two_zpow_pos _).trans_le hleast
  rcases parts_of_isFinite hrounded.isFinite with ⟨s, -, hzero⟩ | ⟨s, m, e, hm, hunpack, -, hsigned⟩
  · exact absurd hzero hvalue.ne'
  · cases s with
    | positive => exact ⟨m, e, hm, hunpack⟩
    | negative =>
      have hnonneg : (0 : ℚ) ≤ m * 2 ^ e := mul_nonneg (Nat.cast_nonneg m) (two_zpow_pos e).le
      have hsigned : value (Decimal.nearest d (-n)) = -(m * 2 ^ e) := hsigned
      linarith

/-- Zero has no power of ten. -/
theorem nearest_zero (e : ℤ) : Decimal.nearest 0 e = Decimal.nearest 0 0 := by
  unfold Decimal.nearest Decimal.BinaryFormat.nearest
  rw [if_pos (beq_self_eq_true 0), if_pos (beq_self_eq_true 0)]

end VisualEncoding.Double
