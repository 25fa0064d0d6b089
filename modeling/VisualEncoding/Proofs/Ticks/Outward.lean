import VisualEncoding.Proofs.Scalar.Extended
import VisualEncoding.Scale.Discretizing

/-!
# Moving ends outward

Nicing and taking in zero move the ends of an interval outward in exact arithmetic: the lower end is not
raised, the upper end is not lowered. Of an interval that is given from its upper end they do the same in
the other direction. That holds where the ends differ, by comparison alone; ends in the same place have no
direction to keep.
-/

namespace VisualEncoding

namespace Ticks

/-! ## From the other end -/

section Direction

variable {α : Type} [Scalar α] [Std.Asymm (α := α) (· < ·)] {a b : α}

/-- Between nicing from one end and from the other nothing differs but the direction. -/
theorem niceLinear_swap (h : a < b) (count : Nat) :
    niceLinear b a count = (niceLinear a b count).swap := by
  have hnot : ¬ b < a := Std.Asymm.asymm _ _ h
  unfold niceLinear
  rw [decide_eq_true h, decide_eq_false hnot]
  simp only [if_true, if_neg Bool.false_ne_true]
  split
  · rfl
  · split <;> rfl

omit [Std.Asymm (α := α) (· < ·)] in
/-- An interval that is not finite stays. -/
theorem niceLinear_of_not_finite (h : ¬ (Scalar.isFinite a = true ∧ Scalar.isFinite b = true))
    (count : Nat) : niceLinear a b count = (a, b) := by
  have hnot : (!Scalar.isFinite a || !Scalar.isFinite b) = true := by
    rw [← Bool.not_and, Bool.not_eq_true', ← Bool.not_eq_true, Bool.and_eq_true]
    exact h
  have hnot' : (!Scalar.isFinite b || !Scalar.isFinite a) = true := by
    rw [Bool.or_comm]
    exact hnot
  unfold niceLinear
  cases decide (b < a) with
  | true => simp only [if_true, hnot', Bool.true_or]
  | false => simp only [if_neg Bool.false_ne_true, hnot, Bool.true_or, if_true]

end Direction

/-! ## Outward -/

variable {lo hi : ℝ} {a b : Extended}

open Extended (finite)

theorem floor_div_mul_le {t : ℝ} (x : ℝ) (ht : 0 < t) : (⌊x / t⌋ : ℝ) * t ≤ x := by
  rw [← le_div_iff₀ ht]
  exact Int.floor_le _

theorem le_ceil_div_mul {t : ℝ} (x : ℝ) (ht : 0 < t) : x ≤ (⌈x / t⌉ : ℝ) * t := by
  rw [← div_le_iff₀ ht]
  exact Int.le_ceil _

/-- What has settled lies outside of where it started. -/
theorem settle_outward (count rounds : Nat) (previous : Option Extended)
    (h : settle count rounds previous (finite lo) (finite hi) = some (a, b)) :
    ∃ lo' hi', a = finite lo' ∧ b = finite hi' ∧ lo' ≤ lo ∧ hi ≤ hi' := by
  induction rounds generalizing previous lo hi with
  | zero => nomatch h
  | succ rounds ih =>
    unfold settle at h
    dsimp only at h
    generalize hstep : increment (finite lo) (finite hi) count = step at h
    split at h
    · nomatch h
    next hproper =>
      rw [Bool.or_eq_true, not_or, Bool.not_eq_true', Bool.not_eq_false] at hproper
      obtain ⟨t, rfl⟩ := Extended.isFinite_iff.mp hproper.1
      have hne : t ≠ 0 := by
        intro ht
        refine hproper.2 ?_
        rw [Extended.zero_eq, Extended.finite_beq, ht]
      split at h
      · cases h
        exact ⟨lo, hi, rfl, rfl, le_refl _, le_refl _⟩
      · simp only [Extended.zero_eq, Extended.finite_lt] at h
        split at h
        next hpos =>
          rw [Extended.finite_div hne, Extended.finite_div hne] at h
          obtain ⟨lo', hi', ha, hb, hlo, hhi⟩ := ih _ h
          exact ⟨lo', hi', ha, hb, hlo.trans (floor_div_mul_le lo hpos),
            (le_ceil_div_mul hi hpos).trans hhi⟩
        next hnonpos =>
          -- the step is the reciprocal of `-t`
          have hneg : 0 < -t := neg_pos.mpr (lt_of_le_of_ne (not_lt.mp hnonpos) hne)
          rw [Extended.finite_mul, Extended.finite_mul, Extended.ceil_finite, Extended.floor_finite,
            Extended.finite_div hne, Extended.finite_div hne] at h
          obtain ⟨lo', hi', ha, hb, hlo, hhi⟩ := ih _ h
          refine ⟨lo', hi', ha, hb, hlo.trans ?_, le_trans ?_ hhi⟩
          · rw [← neg_le_neg_iff, ← div_neg, le_div_iff₀ hneg, neg_mul_neg]
            exact Int.le_ceil _
          · rw [← neg_le_neg_iff, ← div_neg, div_le_iff₀ hneg, neg_mul_neg]
            exact Int.floor_le _

/-- A span reaches at least as far as another, in the same direction. -/
def Widens (a b a' b' : ℝ) : Prop := a ≤ b ∧ a' ≤ a ∧ b ≤ b' ∨ b ≤ a ∧ b' ≤ b ∧ a ≤ a'

section Widens

variable {x y x' y' x'' y'' : ℝ}

theorem Widens.refl (x y : ℝ) : Widens x y x y := by
  rcases le_total x y with h | h
  · exact Or.inl ⟨h, le_refl _, le_refl _⟩
  · exact Or.inr ⟨h, le_refl _, le_refl _⟩

theorem Widens.trans (h : Widens x y x' y') (h' : Widens x' y' x'' y'') : Widens x y x'' y'' := by
  rcases h with ⟨h1, h2, h3⟩ | ⟨h1, h2, h3⟩
  · rcases h' with ⟨h1', h2', h3'⟩ | ⟨h1', h2', h3'⟩
    · exact Or.inl ⟨h1, by linarith, by linarith⟩
    · exact Or.inr ⟨by linarith, by linarith, by linarith⟩
  · rcases h' with ⟨h1', h2', h3'⟩ | ⟨h1', h2', h3'⟩
    · exact Or.inl ⟨by linarith, by linarith, by linarith⟩
    · exact Or.inr ⟨h1, by linarith, by linarith⟩

theorem Widens.swap (h : Widens x y x' y') : Widens y x y' x' := by
  rcases h with ⟨h1, h2, h3⟩ | ⟨h1, h2, h3⟩
  · exact Or.inr ⟨h1, h2, h3⟩
  · exact Or.inl ⟨h1, h2, h3⟩

/-- Ends that differ stay apart. -/
theorem Widens.lt (h : Widens x y x' y') (hxy : x < y) : x' < y' := by
  rcases h with ⟨-, h2, h3⟩ | ⟨h1, -, -⟩
  · linarith
  · exact absurd h1 (not_le.mpr hxy)

end Widens

theorem niceLinear_widens_of_le {x y : ℝ} (h : x ≤ y) (count : Nat) :
    ∃ x' y', niceLinear (finite x) (finite y) count = (finite x', finite y') ∧ Widens x y x' y' := by
  have hnot : ¬ finite y < finite x := by
    rw [Extended.finite_lt]
    exact not_lt.mpr h
  unfold niceLinear
  rw [decide_eq_false hnot]
  simp only [if_neg Bool.false_ne_true]
  split
  · exact ⟨x, y, rfl, Widens.refl x y⟩
  · split
    next a b hsettled =>
      obtain ⟨x', y', rfl, rfl, hx, hy⟩ := settle_outward _ _ _ hsettled
      exact ⟨x', y', rfl, Or.inl ⟨h, hx, hy⟩⟩
    · exact ⟨x, y, rfl, Widens.refl x y⟩

/-- An interval without length stays. -/
theorem niceLinear_self (a : Extended) (count : Nat) : niceLinear a a count = (a, a) := by
  by_cases hfinite : Scalar.isFinite a = true
  · obtain ⟨x, rfl⟩ := Extended.isFinite_iff.mp hfinite
    have hsame : (finite x == finite x) = true := Extended.finite_beq.mpr rfl
    unfold niceLinear
    cases decide (finite x < finite x) with
    | true => simp only [if_true, hsame, Bool.or_true]
    | false => simp only [if_neg Bool.false_ne_true, hsame, Bool.or_true, if_true]
  · exact niceLinear_of_not_finite (fun h => hfinite h.1) count

/-- Nicing moves ends outward. -/
theorem niceLinear_widens (x y : ℝ) (count : Nat) :
    ∃ x' y', niceLinear (finite x) (finite y) count = (finite x', finite y') ∧ Widens x y x' y' := by
  rcases lt_or_ge y x with h | h
  · obtain ⟨y', x', hnice, hw⟩ := niceLinear_widens_of_le h.le count
    refine ⟨x', y', ?_, hw.swap⟩
    rw [niceLinear_swap (Extended.finite_lt.mpr h), hnice]
    rfl
  · exact niceLinear_widens_of_le h count

end Ticks

open Extended (finite)

/-! ## Taking in zero -/

/-- Zero is taken in by moving an end outward. -/
theorem includeZero_widens (x y : ℝ) :
    ∃ x' y', includeZero (finite x) (finite y) = (finite x', finite y') ∧ Ticks.Widens x y x' y' := by
  unfold includeZero
  rw [Extended.zero_eq]
  simp only [Extended.finite_le, Extended.least_finite, Extended.greatest_finite]
  split
  next h => exact ⟨_, _, rfl, Or.inl ⟨h, min_le_left _ _, le_max_left _ _⟩⟩
  next h => exact ⟨_, _, rfl, Or.inr ⟨(not_le.mp h).le, min_le_left _ _, le_max_left _ _⟩⟩

/-- Taking in zero from the other end. -/
theorem includeZero_swap {a b : Extended} (h : a < b) : includeZero b a = (includeZero a b).swap := by
  unfold includeZero
  rw [if_pos (Extended.le_of_lt h), if_neg (Extended.not_le_of_lt h)]
  rfl

end VisualEncoding
