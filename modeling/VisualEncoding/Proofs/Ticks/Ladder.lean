import Mathlib.Algebra.Order.Floor.Ring
import Mathlib.Analysis.SpecialFunctions.Pow.Real
import VisualEncoding.Proofs.Scalar.Powers
import VisualEncoding.Ticks.Linear

/-!
# The ladder of steps

Steps are 1, 2 or 5 times a power of ten: the rungs of a ladder that goes on in both directions (`Ticks.rung`). A step
is chosen by the ratio to the length that it is to have: the border between two rungs is their geometric mean
(`Ticks.IsNearest`), so that every length has its rung, and a rung is at most `√(5/2)` times as long or as short.
-/

namespace VisualEncoding.Ticks

/-! ## Rungs -/

/-- The rungs of the ladder by their numbers; the rung number zero is one. -/
noncomputable def rung (j : ℤ) : ℝ :=
  (if j % 3 = 0 then 1 else if j % 3 = 1 then 2 else 5 : ℕ) * ((10 : ℕ) : ℝ) ^ (j / 3)

theorem rung_one (p : ℤ) : rung (3 * p) = 10 ^ p := by
  unfold rung
  rw [if_pos (by omega), Nat.cast_one, one_mul, Nat.cast_ofNat, Int.mul_ediv_cancel_left p (by decide)]

theorem rung_two (p : ℤ) : rung (3 * p + 1) = 2 * 10 ^ p := by
  unfold rung
  rw [if_neg (by omega), if_pos (by omega), Nat.cast_ofNat, Nat.cast_ofNat, show (3 * p + 1) / 3 = p by omega]

theorem rung_five (p : ℤ) : rung (3 * p + 2) = 5 * 10 ^ p := by
  unfold rung
  rw [if_neg (by omega), if_neg (by omega), Nat.cast_ofNat, Nat.cast_ofNat, show (3 * p + 2) / 3 = p by omega]

/-- The numbers of rungs: 1, 2 and 5 of each power of ten. -/
theorem rung_cases (j : ℤ) : ∃ p, j = 3 * p ∨ j = 3 * p + 1 ∨ j = 3 * p + 2 := ⟨j / 3, by omega⟩

theorem rung_pos (j : ℤ) : 0 < rung j := by
  have hpower : ∀ p : ℤ, (0 : ℝ) < 10 ^ p := fun p => zpow_pos (by norm_num) p
  obtain ⟨p, rfl | rfl | rfl⟩ := rung_cases j
  · rw [rung_one]
    exact hpower p
  · rw [rung_two]
    exact mul_pos (by norm_num) (hpower p)
  · rw [rung_five]
    exact mul_pos (by norm_num) (hpower p)

theorem rung_add_three (j : ℤ) : rung (j + 3) = 10 * rung j := by
  have hten : ((10 : ℕ) : ℝ) ^ ((j + 3) / 3) = 10 * ((10 : ℕ) : ℝ) ^ (j / 3) := by
    rw [show (j + 3) / 3 = 1 + j / 3 by omega, zpow_add₀ (by norm_num), zpow_one, Nat.cast_ofNat]
  unfold rung
  rw [hten, show (j + 3) % 3 = j % 3 by omega]
  ring

theorem rung_is_step (j : ℤ) : ∃ m ∈ ({1, 2, 5} : Set ℝ), ∃ p : ℤ, rung j = m * 10 ^ p := by
  obtain ⟨p, rfl | rfl | rfl⟩ := rung_cases j
  · exact ⟨1, by simp, p, by rw [rung_one, one_mul]⟩
  · exact ⟨2, by simp, p, rung_two p⟩
  · exact ⟨5, by simp, p, rung_five p⟩

/-- A rung and the three after it, in terms of the power of ten that the first belongs to. -/
theorem rungs_cases (j : ℤ) : ∃ t : ℝ, 0 < t ∧
    (rung j = t ∧ rung (j + 1) = 2 * t ∧ rung (j + 2) = 5 * t ∨
      rung j = 2 * t ∧ rung (j + 1) = 5 * t ∧ rung (j + 2) = 10 * t ∨
      rung j = 5 * t ∧ rung (j + 1) = 10 * t ∧ rung (j + 2) = 20 * t) := by
  obtain ⟨p, hp⟩ := rung_cases j
  have hnext : rung (3 * p + 3) = 10 * 10 ^ p := by rw [rung_add_three, rung_one]
  have hafter : rung (3 * p + 1 + 3) = 10 * (2 * 10 ^ p) := by rw [rung_add_three, rung_two]
  refine ⟨10 ^ p, zpow_pos (by norm_num) p, ?_⟩
  rcases hp with rfl | rfl | rfl
  · exact .inl ⟨rung_one p, rung_two p, rung_five p⟩
  · refine .inr (.inl ⟨rung_two p, ?_, ?_⟩)
    · rw [show 3 * p + 1 + 1 = 3 * p + 2 by ring, rung_five]
    · rw [show 3 * p + 1 + 2 = 3 * p + 3 by ring, hnext]
  · refine .inr (.inr ⟨rung_five p, ?_, ?_⟩)
    · rw [show 3 * p + 2 + 1 = 3 * p + 3 by ring, hnext]
    · rw [show 3 * p + 2 + 2 = 3 * p + 1 + 3 by ring, hafter]
      ring

/-- The next rung is two or two and a half times as long. -/
theorem rung_succ_cases (j : ℤ) : ∃ t : ℝ, 0 < t ∧
    (rung j = t ∧ rung (j + 1) = 2 * t ∨ rung j = 2 * t ∧ rung (j + 1) = 5 * t) := by
  obtain ⟨t, ht, ⟨h1, h2, -⟩ | ⟨h1, h2, -⟩ | ⟨h1, h2, -⟩⟩ := rungs_cases j
  · exact ⟨t, ht, .inl ⟨h1, h2⟩⟩
  · exact ⟨t, ht, .inr ⟨h1, h2⟩⟩
  · exact ⟨5 * t, by linarith, .inl ⟨h1, by rw [h2]; ring⟩⟩

theorem rung_strictMono : StrictMono rung := by
  refine strictMono_int_of_lt_succ fun j => ?_
  obtain ⟨t, ht, ⟨h1, h2⟩ | ⟨h1, h2⟩⟩ := rung_succ_cases j
  · rw [h1, h2]
    linarith
  · rw [h1, h2]
    linarith

/-! ## The nearest rung -/

/-- The rung that comes closest, by ratio, to a length. -/
structure IsNearest (length : ℝ) (j : ℤ) : Prop where
  le : rung (j - 1) * rung j ≤ length ^ 2
  lt : length ^ 2 < rung j * rung (j + 1)

variable {length length' ratio : ℝ} {j j' : ℤ}

/-- A greater length has no lower rung. -/
theorem IsNearest.le_of_le (h : IsNearest length j) (h' : IsNearest length' j') (hpos : 0 ≤ length)
    (hle : length ≤ length') : j ≤ j' := by
  by_contra hnot
  have hlower : rung j' ≤ rung (j - 1) := rung_strictMono.monotone (by omega)
  have hlower' : rung (j' + 1) ≤ rung j := rung_strictMono.monotone (by omega)
  have hprod := mul_le_mul hlower hlower' (rung_pos _).le (rung_pos _).le
  have hsquare := pow_le_pow_left₀ hpos hle 2
  have := h.le
  have := h'.lt
  linarith

/-- The rung is at most `√(5/2)` times as long, -/
theorem IsNearest.rung_le (h : IsNearest length j) : rung j ^ 2 ≤ 5 / 2 * length ^ 2 := by
  have hle := h.le
  obtain ⟨t, ht, hcases⟩ := rungs_cases (j - 1)
  rw [sub_add_cancel] at hcases
  rcases hcases with ⟨h1, h2, -⟩ | ⟨h1, h2, -⟩ | ⟨h1, h2, -⟩
  · rw [h1, h2] at hle
    rw [h2]
    nlinarith
  · rw [h1, h2] at hle
    rw [h2]
    nlinarith
  · rw [h1, h2] at hle
    rw [h2]
    nlinarith

/-- and at most `√(5/2)` times as short. -/
theorem IsNearest.lt_rung (h : IsNearest length j) : length ^ 2 < 5 / 2 * rung j ^ 2 := by
  have hlt := h.lt
  obtain ⟨t, ht, hcases⟩ := rungs_cases j
  rcases hcases with ⟨h1, h2, -⟩ | ⟨h1, h2, -⟩ | ⟨h1, h2, -⟩
  · rw [h1, h2] at hlt
    rw [h1]
    nlinarith
  · rw [h1, h2] at hlt
    rw [h1]
    nlinarith
  · rw [h1, h2] at hlt
    rw [h1]
    nlinarith

/-! ## Steps are rungs -/

open Extended (finite)

theorem sqrt_le_finite {n : ℕ} (h : 0 ≤ ratio) :
    Scalar.sqrt (finite ((n : ℤ) : ℝ)) ≤ finite ratio ↔ (n : ℝ) ≤ ratio ^ 2 := by
  have hsqrt : Scalar.sqrt (finite ((n : ℤ) : ℝ)) = finite (Real.sqrt n) := by
    show (if ((n : ℤ) : ℝ) < 0 then _ else _) = _
    rw [Int.cast_natCast, if_neg (Nat.cast_nonneg n).not_gt]
  rw [hsqrt, Extended.finite_le, Real.sqrt_le_left h]

/-- The factor of a ratio from one to ten. -/
theorem stepFactor_cases (h : 0 ≤ ratio) :
    50 ≤ ratio ^ 2 ∧ stepFactor (finite ratio) = finite 10 ∨
      10 ≤ ratio ^ 2 ∧ ratio ^ 2 < 50 ∧ stepFactor (finite ratio) = finite 5 ∨
      2 ≤ ratio ^ 2 ∧ ratio ^ 2 < 10 ∧ stepFactor (finite ratio) = finite 2 ∨
      ratio ^ 2 < 2 ∧ stepFactor (finite ratio) = finite 1 := by
  unfold stepFactor
  simp only [Extended.ofNat_eq, sqrt_le_finite h]
  norm_num only [Int.cast_natCast, Nat.cast_ofNat, Nat.cast_one, not_le]
  split
  next h50 => exact .inl ⟨h50, rfl⟩
  next h50 =>
    split
    next h10 => exact .inr (.inl ⟨h10, not_le.mp h50, rfl⟩)
    next h10 =>
      split
      next h2 => exact .inr (.inr (.inl ⟨h2, not_le.mp h10, rfl⟩))
      next h2 => exact .inr (.inr (.inr ⟨not_le.mp h2, rfl⟩))

/-- The factor and the power of ten of a length lead to its rung. -/
theorem exists_rung (h : 0 < length) :
    ∃ factor j, stepFactor (finite (length / 10 ^ ⌊Real.logb 10 length⌋)) = finite factor ∧
      factor * 10 ^ ⌊Real.logb 10 length⌋ = rung j ∧ IsNearest length j := by
  generalize hp : ⌊Real.logb 10 length⌋ = p
  obtain ⟨hle, hlt⟩ := Int.floor_eq_iff.mp hp
  rw [Real.le_logb_iff_rpow_le (by norm_num) h, Real.rpow_intCast] at hle
  rw [Real.logb_lt_iff_lt_rpow (by norm_num) h, Real.rpow_add (by norm_num), Real.rpow_intCast, Real.rpow_one] at hlt
  have hpower : (0 : ℝ) < 10 ^ p := zpow_pos (by norm_num) p
  have hsplit : length = length / 10 ^ p * 10 ^ p := (div_mul_cancel₀ _ hpower.ne').symm
  generalize hratio : length / 10 ^ p = ratio at hsplit ⊢
  have hone : 1 ≤ ratio := by
    rw [← hratio, le_div_iff₀ hpower, one_mul]
    exact hle
  have hten : ratio < 10 := by
    rw [← hratio, div_lt_iff₀ hpower, mul_comm]
    exact hlt
  have hsquare : 0 < ((10 : ℝ) ^ p) ^ 2 := pow_pos hpower 2
  have hbefore : rung (3 * p - 1) = 10 ^ p / 2 := by
    have hfive := rung_five (p - 1)
    rw [show 3 * (p - 1) + 2 = 3 * p - 1 by ring, zpow_sub_one₀ (by norm_num)] at hfive
    rw [hfive]
    ring
  have hafter : rung (3 * p + 3) = 10 * 10 ^ p := by rw [rung_add_three, rung_one]
  rcases stepFactor_cases (zero_le_one.trans hone) with ⟨h50, hf⟩ | ⟨h10, h50, hf⟩ | ⟨h2, h10, hf⟩ | ⟨h2, hf⟩
  · refine ⟨10, 3 * p + 3, hf, hafter.symm, ?_, ?_⟩
    · rw [show 3 * p + 3 - 1 = 3 * p + 2 by ring, rung_five, hafter, hsplit]
      nlinarith
    · rw [hafter, show 3 * p + 3 + 1 = 3 * p + 1 + 3 by ring, rung_add_three, rung_two, hsplit]
      nlinarith
  · refine ⟨5, 3 * p + 2, hf, (rung_five p).symm, ?_, ?_⟩
    · rw [show 3 * p + 2 - 1 = 3 * p + 1 by ring, rung_five, rung_two, hsplit]
      nlinarith
    · rw [show 3 * p + 2 + 1 = 3 * p + 3 by ring, rung_five, hafter, hsplit]
      nlinarith
  · refine ⟨2, 3 * p + 1, hf, (rung_two p).symm, ?_, ?_⟩
    · rw [show 3 * p + 1 - 1 = 3 * p by ring, rung_two, rung_one, hsplit]
      nlinarith
    · rw [show 3 * p + 1 + 1 = 3 * p + 2 by ring, rung_five, rung_two, hsplit]
      nlinarith
  · refine ⟨1, 3 * p, hf, by rw [rung_one, one_mul], ?_, ?_⟩
    · rw [hbefore, rung_one, hsplit]
      nlinarith
    · rw [rung_one, rung_two, hsplit]
      nlinarith

/-! ## Whole rungs -/

/-- Rounded to a whole number, a rung is at most one, or is 1, 2 or 5 times a whole power of ten. -/
theorem round_rung (j : ℤ) : ∃ n : ℕ, Scalar.round (finite (rung j)) = finite ((n : ℤ) : ℝ) ∧
    (n ≤ 1 ∨ ∃ m ∈ [1, 2, 5], ∃ p, n = m * 10 ^ p) := by
  have hround : Scalar.round (finite (rung j)) = finite ((⌊rung j + 1 / 2⌋ : ℤ) : ℝ) := Extended.round_of_pos (rung_pos j)
  have hwhole : ∀ n : ℕ, rung j = n → Scalar.round (finite (rung j)) = finite ((n : ℤ) : ℝ) := by
    intro n hn
    have hfloor : ⌊(n : ℝ) + 1 / 2⌋ = n := by
      rw [Int.floor_eq_iff]
      constructor
      · push_cast
        linarith
      · push_cast
        linarith
    rw [hround, hn, hfloor]
  rcases lt_or_ge j 0 with hneg | hnonneg
  · have hhalf : rung j ≤ 1 / 2 := by
      have hfive := rung_five (-1)
      rw [show 3 * -1 + 2 = (-1 : ℤ) by norm_num, zpow_neg_one] at hfive
      have hle : rung j ≤ rung (-1) := rung_strictMono.monotone (by omega)
      linarith
    have hfloor : 0 ≤ ⌊rung j + 1 / 2⌋ := Int.floor_nonneg.mpr (by linarith [rung_pos j])
    have hone : ⌊rung j + 1 / 2⌋ ≤ 1 := by
      rw [← Int.cast_le (R := ℝ)]
      push_cast
      linarith [Int.floor_le (rung j + 1 / 2)]
    refine ⟨⌊rung j + 1 / 2⌋.toNat, ?_, .inl (by omega)⟩
    rw [hround, Int.toNat_of_nonneg hfloor]
  · obtain ⟨p, hp⟩ := rung_cases j
    obtain ⟨n, rfl⟩ := Int.eq_ofNat_of_zero_le (show 0 ≤ p by omega)
    rcases hp with rfl | rfl | rfl
    · refine ⟨1 * 10 ^ n, hwhole _ ?_, .inr ⟨1, by decide, n, rfl⟩⟩
      rw [rung_one]
      push_cast
      rw [one_mul, zpow_natCast]
    · refine ⟨2 * 10 ^ n, hwhole _ ?_, .inr ⟨2, by decide, n, rfl⟩⟩
      rw [rung_two]
      push_cast
      rw [zpow_natCast]
    · refine ⟨5 * 10 ^ n, hwhole _ ?_, .inr ⟨5, by decide, n, rfl⟩⟩
      rw [rung_five]
      push_cast
      rw [zpow_natCast]

end VisualEncoding.Ticks
