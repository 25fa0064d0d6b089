import VisualEncoding.Proofs.Ticks.Grids

/-!
# The size of steps

In exact arithmetic the step of an interval is a rung of the ladder, whichever end the interval is given from, and no
more than twice as long as the interval. An interval without length has a step of zero.
-/

namespace VisualEncoding

open Extended (finite infinite)

namespace Ticks

variable {x y : ℝ} {count : ℕ}

theorem step_eq_rung (h : x < y) (hcount : 1 ≤ count) :
    ∃ j, step (finite x) (finite y) count = finite (rung j) ∧ rung j ≤ 2 * (y - x) := by
  obtain ⟨j, hcovers, -, -, hle⟩ := grid_eq h hcount
  exact ⟨j, step_of_covers h (rung_pos j) hcovers, hle⟩

/-- From the other end the step is as long. -/
theorem step_swap (h : x < y) : step (finite y) (finite x) count = -step (finite x) (finite y) count := by
  have hlt : finite x < finite y := Extended.finite_lt.mpr h
  unfold step
  dsimp only
  rw [if_pos hlt, if_neg (Extended.lt_asymm hlt)]

theorem abs_step_eq_rung (h : x ≠ y) (hcount : 1 ≤ count) :
    ∃ j, Scalar.abs (step (finite x) (finite y) count) = finite (rung j) ∧ rung j ≤ 2 * |y - x| := by
  rcases h.lt_or_gt with hlt | hgt
  · obtain ⟨j, hstep, hle⟩ := step_eq_rung hlt hcount
    refine ⟨j, ?_, ?_⟩
    · rw [hstep, Extended.abs_of_pos (rung_pos j)]
    · rwa [abs_of_pos (sub_pos.mpr hlt)]
  · obtain ⟨j, hstep, hle⟩ := step_eq_rung hgt hcount
    refine ⟨j, ?_, ?_⟩
    · rw [step_swap hgt, hstep, Extended.abs_neg_of_pos (rung_pos j)]
    · rwa [abs_sub_comm, abs_of_pos (sub_pos.mpr hgt)]

theorem infinite_lt_zero : infinite true < (0 : Extended) :=
  ⟨⊥, rfl, 0, by rw [Extended.zero_eq]; rfl, EReal.bot_lt_zero⟩

/-- No comparison holds of what is undefined, so the factor is the least. -/
theorem stepFactor_undefined : stepFactor Extended.undefined = (1 : Extended) := by
  have hnone : ∀ a : Extended, ¬ a ≤ Extended.undefined := fun _ ⟨_, _, _, h, _⟩ => nomatch h
  unfold stepFactor
  rw [if_neg (hnone _), if_neg (hnone _), if_neg (hnone _)]

/-- The logarithm of a part without length is negative infinity. -/
theorem increment_gridFor_self (x : ℝ) (hcount : 1 ≤ count) :
    (gridFor (finite x) (finite x) count).increment = infinite true := by
  have hparts : ((count : ℤ) : ℝ) ≠ 0 := by exact_mod_cast (by omega : count ≠ 0)
  have hpart : (finite x - finite x) / Scalar.ofInt count = finite 0 := by
    rw [Extended.finite_sub, sub_self, Extended.ofInt_eq, Extended.finite_div hparts, zero_div]
  have hquotient : finite 0 / finite 0 = Extended.undefined := (if_pos rfl).trans (if_pos rfl)
  have hscale : infinite false / (1 : Extended) = infinite false := by
    rw [Extended.one_eq]
    show infinite (false ^^ Extended.isNegative 1) = _
    rw [Extended.isNegative, decide_eq_false (by norm_num)]
    rfl
  unfold gridFor
  dsimp only
  rw [hpart, Extended.log10_zero]
  show (if infinite true < (0 : Extended) then _ else _ : Grid Extended).increment = _
  rw [if_pos infinite_lt_zero]
  show -(Scalar.pow 10 (infinite false) / stepFactor (finite 0 / Scalar.pow 10 (infinite true))) = infinite true
  rw [Extended.pow_ten_infinite, Extended.pow_ten_infinite, if_neg Bool.false_ne_true, if_pos rfl, hquotient,
    stepFactor_undefined, hscale]
  rfl

/-- The step of an interval without length is zero, carried as an infinite reciprocal. -/
theorem step_self (hcount : 1 ≤ count) : step (finite x) (finite x) count = finite 0 := by
  have hincrement : (grid (finite x) (finite x) count).increment = infinite true := by
    unfold grid
    dsimp only
    split
    · exact increment_gridFor_self x (by decide)
    · exact increment_gridFor_self x hcount
  unfold step increment
  dsimp only
  rw [if_neg (by rw [Extended.finite_lt]; exact lt_irrefl _), hincrement, if_pos infinite_lt_zero, Extended.one_eq]
  rfl

end Ticks

end VisualEncoding
