import VisualEncoding.Proofs.Scalar.Extended

/-!
# Powers and logarithms

Positive powers keep the order of the numbers that are not negative, the infinite power included. Powers of ten and
the logarithm to that base are those of the real numbers.
-/

namespace VisualEncoding.Extended

variable {e : Extended} {x y : ℝ}

/-! ## Powers of ten -/

theorem ten_eq : (10 : Extended) = finite 10 := by
  rw [ofNat_eq]
  norm_num

theorem pow_ten (p : ℝ) : Scalar.pow (10 : Extended) (finite p) = finite ((10 : ℝ) ^ p) := by
  rw [ten_eq]
  show powFinite 10 p = _
  unfold powFinite
  split
  next h => rw [h, Real.rpow_zero]
  next => rw [if_neg (by norm_num), if_pos (by norm_num)]

theorem log10_finite {x : ℝ} (h : 0 < x) : Scalar.log10 (finite x) = finite (Real.logb 10 x) := by
  show (if x < 0 then undefined else if x = 0 then infinite true else finite (Real.logb 10 x)) = _
  rw [if_neg h.not_gt, if_neg h.ne']

theorem log10_zero : Scalar.log10 (finite 0) = infinite true := (if_neg (lt_irrefl _)).trans (if_pos rfl)

theorem pow_ten_infinite (negative : Bool) :
    Scalar.pow (10 : Extended) (infinite negative) = if negative then finite 0 else infinite false := by
  have hone : ¬ |(10 : ℝ)| = 1 := by norm_num
  have hlarge : 1 < |(10 : ℝ)| := by norm_num
  rw [ten_eq]
  refine (if_neg hone).trans ?_
  cases negative with
  | true => exact if_neg fun h => nomatch h.mp hlarge
  | false => exact if_pos (iff_of_true hlarge rfl)

/-! ## Powers in order -/

theorem pos_cases (h : 0 < e) : (∃ q : ℝ, 0 < q ∧ e = finite q) ∨ e = infinite false := by
  rw [zero_eq] at h
  cases e with
  | finite q => exact Or.inl ⟨q, finite_lt.mp h, rfl⟩
  | infinite s =>
    cases s with
    | false => exact Or.inr rfl
    | true =>
      obtain ⟨_, ⟨⟩, _, ⟨⟩, h⟩ := h
      exact absurd h not_lt_bot
  | undefined =>
    obtain ⟨_, _, _, ⟨⟩, _⟩ := h

theorem pow_of_nonneg {q : ℝ} (hq : 0 < q) (hx : 0 ≤ x) :
    Scalar.pow (finite x) (finite q) = finite (x ^ q) := by
  show powFinite x q = _
  unfold powFinite
  rw [if_neg hq.ne']
  rcases hx.eq_or_lt with rfl | hpos
  · rw [if_pos rfl, if_neg hq.not_gt, Real.zero_rpow hq.ne']
  · rw [if_neg hpos.ne', if_pos hpos]

/-- A number below one vanishes in the long run, one above grows beyond all bounds. -/
theorem pow_infinite_of_nonneg (hx : 0 ≤ x) :
    Scalar.pow (finite x) (infinite false)
      = if x < 1 then finite 0 else if x = 1 then finite 1 else infinite false := by
  show (if |x| = 1 then finite 1 else if 1 < |x| ↔ false = false then infinite false else finite 0) = _
  rw [abs_of_nonneg hx]
  rcases lt_trichotomy x 1 with hlt | rfl | hgt
  · rw [if_neg hlt.ne, if_neg (by simpa using hlt.le), if_pos hlt]
  · rw [if_pos rfl, if_neg (lt_irrefl _), if_pos rfl]
  · rw [if_neg hgt.ne', if_pos (by simpa using hgt), if_neg hgt.not_gt, if_neg hgt.ne']

/-- Positive powers keep the order of the numbers that are not negative. -/
theorem pow_le_pow (he : 0 < e) (hx : 0 ≤ x) (hxy : x ≤ y) :
    0 ≤ Scalar.pow (finite x) e ∧ Scalar.pow (finite x) e ≤ Scalar.pow (finite y) e := by
  rcases pos_cases he with ⟨q, hq, rfl⟩ | rfl
  · rw [pow_of_nonneg hq hx, pow_of_nonneg hq (hx.trans hxy), zero_eq, finite_le, finite_le]
    exact ⟨Real.rpow_nonneg hx q, Real.rpow_le_rpow hx hxy hq.le⟩
  · have hinfinite : ∀ r : ℝ, finite r ≤ infinite false := fun r => ⟨_, rfl, _, rfl, le_top⟩
    have hself : infinite false ≤ infinite false := ⟨_, rfl, _, rfl, le_rfl⟩
    rw [pow_infinite_of_nonneg hx, pow_infinite_of_nonneg (hx.trans hxy), zero_eq]
    constructor
    · split
      · exact finite_le.mpr le_rfl
      · split
        · exact finite_le.mpr zero_le_one
        · exact hinfinite 0
    · by_cases hx1 : x < 1
      · rw [if_pos hx1]
        split
        · exact finite_le.mpr le_rfl
        · split
          · exact finite_le.mpr zero_le_one
          · exact hinfinite 0
      · rw [if_neg hx1, if_neg (not_lt.mpr ((not_lt.mp hx1).trans hxy))]
        by_cases hy1 : y = 1
        · have hx1' : x = 1 := (hy1 ▸ hxy).antisymm (not_lt.mp hx1)
          rw [if_pos hy1, if_pos hx1']
          exact finite_le.mpr le_rfl
        · rw [if_neg hy1]
          split
          · exact hinfinite 1
          · exact hself

end VisualEncoding.Extended
