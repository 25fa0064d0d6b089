import VisualEncoding.Proofs.Ticks.Ladder

/-!
# Ticks are all multiples of a step

In exact arithmetic the first and the last index of a grid are the least and the greatest integer whose multiple lies
in the interval, whether the step is carried as it is or as its negated reciprocal (`Ticks.gridFor_eq`). So the ticks
of an interval are all multiples of its step that lie in it:

> `linear_lists_multiples`: the step is 1, 2 or 5 times a power of ten, there is at least one tick, there are no more
> than four times as many as were asked for, and from the other end they come in the reverse order.

An interval that is cut into two parts or more is longer than its step, so that a multiple lies inside. One that is
cut into a single part may lie between two multiples, and is cut into two then (`Ticks.grid_eq`).
-/

namespace VisualEncoding.Ticks

open Extended (finite)

variable {x y q : ℝ} {j : ℤ} {count : ℕ} {inc : Extended}

/-! ## Indices -/

/-- What a function on whole numbers is to be: the multiple of a step. -/
def IsMultiple (value : Extended → Extended) (q : ℝ) : Prop := ∀ i : ℤ, value (finite i) = finite (i * q)

/-- The first index is the least whose multiple is not below the interval. -/
theorem firstIndex_eq {value : Extended → Extended} (hq : 0 < q) (hvalue : IsMultiple value q) (x : ℝ) :
    firstIndex value (finite x) (finite (x / q)) = finite (⌈x / q⌉ : ℤ) := by
  obtain ⟨i, hround, hlt, hlt'⟩ := Extended.exists_round (x / q)
  unfold firstIndex
  dsimp only
  rw [hround, hvalue, Extended.one_eq]
  by_cases hbelow : i * q < x
  · have hceil : ⌈x / q⌉ = i + 1 := by
      rw [Int.ceil_eq_iff]
      push_cast
      rw [lt_div_iff₀ hq]
      exact ⟨by linarith, by linarith⟩
    rw [if_pos (Extended.finite_lt.mpr hbelow), hceil, Extended.finite_add]
    push_cast
    rfl
  · have hceil : ⌈x / q⌉ = i := by
      rw [Int.ceil_eq_iff, div_le_iff₀ hq]
      exact ⟨by linarith, not_lt.mp hbelow⟩
    rw [if_neg (by rwa [Extended.finite_lt]), hceil]

/-- The last index is the greatest whose multiple is not above the interval. -/
theorem lastIndex_eq {value : Extended → Extended} (hq : 0 < q) (hvalue : IsMultiple value q) (y : ℝ) :
    lastIndex value (finite y) (finite (y / q)) = finite (⌊y / q⌋ : ℤ) := by
  obtain ⟨i, hround, hlt, hlt'⟩ := Extended.exists_round (y / q)
  unfold lastIndex
  dsimp only
  rw [hround, hvalue, Extended.one_eq]
  by_cases habove : y < i * q
  · have hfloor : ⌊y / q⌋ = i - 1 := by
      rw [Int.floor_eq_iff]
      push_cast
      rw [div_lt_iff₀ hq]
      exact ⟨by linarith, by linarith⟩
    rw [if_pos (Extended.finite_lt.mpr habove), hfloor, Extended.finite_sub]
    push_cast
    rfl
  · have hfloor : ⌊y / q⌋ = i := by
      rw [Int.floor_eq_iff, le_div_iff₀ hq]
      exact ⟨not_lt.mp habove, by linarith⟩
    rw [if_neg (by rwa [Extended.finite_lt]), hfloor]

/-! ## Grids -/

/-- An increment that stands for a step: the step itself, or its negated reciprocal. -/
def Carries (inc : Extended) (q : ℝ) : Prop := inc = finite q ∨ inc = finite (-(1 / q))

/-- A grid of the multiples of a step in an interval. -/
structure Grid.Covers (g : Grid Extended) (x y q : ℝ) : Prop where
  first : g.first = finite (⌈x / q⌉ : ℤ)
  last : g.last = finite (⌊y / q⌋ : ℤ)
  carries : Carries g.increment q

theorem Grid.Covers.value {g : Grid Extended} (h : g.Covers x y q) (hq : 0 < q) : IsMultiple g.value q := by
  intro i
  unfold Grid.value
  rw [Extended.zero_eq]
  rcases h.carries with hinc | hinc
  · rw [hinc, if_neg (by rw [Extended.finite_lt]; exact hq.not_gt), Extended.finite_mul]
  · have hneg : -(1 / q) < 0 := neg_neg_of_pos (one_div_pos.mpr hq)
    rw [hinc, if_pos (Extended.finite_lt.mpr hneg), Extended.neg_finite, neg_neg,
      Extended.finite_div (one_div_ne_zero hq.ne'), div_div_eq_mul_div, div_one]

/-- The grid of a number of parts has the step that comes closest to the length of a part. -/
theorem gridFor_eq (h : x < y) (hcount : 1 ≤ count) :
    ∃ j, IsNearest ((y - x) / count) j ∧ (gridFor (finite x) (finite y) count).Covers x y (rung j) := by
  have hcount' : (0 : ℝ) < count := by exact_mod_cast hcount
  have hpart : 0 < (y - x) / count := div_pos (sub_pos.mpr h) hcount'
  obtain ⟨factor, j, hfactor, hrung, hnearest⟩ := exists_rung hpart
  refine ⟨j, hnearest, ?_⟩
  have hpos := rung_pos j
  generalize hp : ⌊Real.logb 10 ((y - x) / count)⌋ = p at hfactor hrung
  have hpower : (10 : ℝ) ^ p ≠ 0 := (zpow_pos (by norm_num) p).ne'
  have hf : factor ≠ 0 := by
    rintro rfl
    rw [zero_mul] at hrung
    exact hpos.ne hrung
  have hdiv : ∀ i : ℤ, (i : ℝ) / (1 / rung j) = i * rung j := fun i => by rw [div_div_eq_mul_div, div_one]
  unfold gridFor
  dsimp only
  rw [Extended.ofInt_eq, Extended.finite_sub, Int.cast_natCast, Extended.finite_div hcount'.ne',
    Extended.log10_finite hpart, Extended.floor_finite, hp, Extended.neg_finite, Extended.pow_ten, Extended.pow_ten,
    ← Int.cast_neg, Real.rpow_intCast, Real.rpow_intCast, Extended.finite_div hpower, hfactor]
  split
  · -- the scale is the reciprocal of the step
    have hscale : finite ((10 : ℝ) ^ (-p)) / finite factor = finite (1 / rung j) := by
      rw [Extended.finite_div hf, ← hrung, zpow_neg, one_div, mul_inv, div_eq_mul_inv, mul_comm]
    have hvalue : IsMultiple (· / finite (1 / rung j)) (rung j) := fun i => by
      show finite i / _ = _
      rw [Extended.finite_div (one_div_ne_zero hpos.ne'), hdiv]
    rw [hscale]
    refine ⟨?_, ?_, .inr rfl⟩
    · dsimp only
      rw [Extended.finite_mul, mul_one_div, firstIndex_eq hpos hvalue]
    · dsimp only
      rw [Extended.finite_mul, mul_one_div, lastIndex_eq hpos hvalue]
  · have hscale : finite ((10 : ℝ) ^ p) * finite factor = finite (rung j) := by
      rw [Extended.finite_mul, mul_comm, hrung]
    have hvalue : IsMultiple (· * finite (rung j)) (rung j) := fun i => Extended.finite_mul
    rw [hscale]
    refine ⟨?_, ?_, .inl rfl⟩
    · dsimp only
      rw [Extended.finite_div hpos.ne', firstIndex_eq hpos hvalue]
    · dsimp only
      rw [Extended.finite_div hpos.ne', lastIndex_eq hpos hvalue]

/-- An interval that is no shorter than a step has a multiple of it inside. -/
theorem ceil_le_floor (hq : 0 < q) (h : q ≤ y - x) : ⌈x / q⌉ ≤ ⌊y / q⌋ := by
  rw [Int.le_floor]
  have hceil := Int.ceil_lt_add_one (x / q)
  have hwide : x / q + 1 ≤ y / q := by
    rw [← div_self hq.ne', ← add_div]
    exact div_le_div_of_nonneg_right (by linarith) hq.le
  linarith

/-- Two parts or more are longer together than the step. -/
theorem rung_le_of_isNearest (h : x < y) (hcount : 2 ≤ count) (hnearest : IsNearest ((y - x) / count) j) :
    rung j ≤ y - x := by
  have hcount' : (2 : ℝ) ≤ count := by exact_mod_cast hcount
  have hsplit : y - x = (y - x) / count * count := (div_mul_cancel₀ _ (by linarith)).symm
  have hpart : 0 < (y - x) / count := div_pos (sub_pos.mpr h) (by linarith)
  have hle := hnearest.rung_le
  rw [hsplit]
  generalize (y - x) / count = r at hpart hle ⊢
  have htwice : 2 * r ≤ r * count := by nlinarith
  refine (abs_le_of_sq_le_sq' ?_ (by linarith)).2.trans htwice
  nlinarith

theorem rung_le_two_mul (h : x < y) (hcount : 1 ≤ count) (hnearest : IsNearest ((y - x) / count) j) :
    rung j ≤ 2 * (y - x) := by
  have hcount' : (1 : ℝ) ≤ count := by exact_mod_cast hcount
  have hpart : 0 < (y - x) / count := div_pos (sub_pos.mpr h) (by linarith)
  have hshort : (y - x) / count ≤ y - x := div_le_self (sub_pos.mpr h).le hcount'
  have hle := hnearest.rung_le
  have htwice : rung j ≤ 2 * ((y - x) / count) := (abs_le_of_sq_le_sq' (by nlinarith) (by linarith)).2
  linarith

/-- A grid has not many more multiples than it has parts. -/
theorem floor_sub_ceil_lt (hcount : 1 ≤ count) (hnearest : IsNearest ((y - x) / count) j) :
    ((⌊y / rung j⌋ - ⌈x / rung j⌉ : ℤ) : ℝ) < 8 / 5 * count := by
  have hq := rung_pos j
  have hcount' : (0 : ℝ) < count := by exact_mod_cast hcount
  have hlt := hnearest.lt_rung
  have hpart : (y - x) / count < 8 / 5 * rung j := by
    refine lt_of_pow_lt_pow_left₀ 2 (by linarith) (hlt.trans_le ?_)
    nlinarith
  have hfloor := Int.floor_le (y / rung j)
  have hceil := Int.le_ceil (x / rung j)
  rw [div_lt_iff₀ hcount'] at hpart
  have hwide : (y - x) / rung j < 8 / 5 * count := by
    rw [div_lt_iff₀ hq]
    linarith
  rw [sub_div] at hwide
  push_cast
  linarith

/-- The grid of an interval has a multiple in it, and no more than four for each part; its step is not much longer
than the interval. -/
theorem grid_eq (h : x < y) (hcount : 1 ≤ count) :
    ∃ j, (grid (finite x) (finite y) count).Covers x y (rung j) ∧ ⌈x / rung j⌉ ≤ ⌊y / rung j⌋ ∧
      ⌊y / rung j⌋ - ⌈x / rung j⌉ + 1 ≤ (4 * count : ℤ) ∧ rung j ≤ 2 * (y - x) := by
  obtain ⟨j, hnearest, hcovers⟩ := gridFor_eq h hcount
  have hempty : (gridFor (finite x) (finite y) count).last < (gridFor (finite x) (finite y) count).first ↔
      ⌊y / rung j⌋ < ⌈x / rung j⌉ := by
    rw [hcovers.first, hcovers.last, Extended.finite_lt, Int.cast_lt]
  unfold grid
  dsimp only
  split
  next hretry =>
    obtain ⟨rfl, -⟩ := hretry
    obtain ⟨j', hnearest', hcovers'⟩ := gridFor_eq h (show 1 ≤ 2 by decide)
    have hfew := floor_sub_ceil_lt (by decide) hnearest'
    refine ⟨j', hcovers', ceil_le_floor (rung_pos j') (rung_le_of_isNearest h le_rfl hnearest'), ?_,
      rung_le_two_mul h (by decide) hnearest'⟩
    have hthree : ⌊y / rung j'⌋ - ⌈x / rung j'⌉ < 4 := by
      rw [← Int.cast_lt (R := ℝ)]
      push_cast at hfew ⊢
      linarith
    omega
  next hkept =>
    refine ⟨j, hcovers, ?_, ?_, rung_le_two_mul h hcount hnearest⟩
    · rcases Nat.eq_or_lt_of_le hcount with rfl | htwo
      · exact Int.not_lt.mp fun hlt => hkept ⟨rfl, hempty.mpr hlt⟩
      · exact ceil_le_floor (rung_pos j) (rung_le_of_isNearest h htwo hnearest)
    · have hfew := floor_sub_ceil_lt hcount hnearest
      have hcount' : (1 : ℝ) ≤ count := by exact_mod_cast hcount
      rw [← Int.cast_le (R := ℝ)]
      push_cast at hfew ⊢
      linarith

/-- For two parts or more the step is the one that comes closest to the length of a part. -/
theorem grid_eq_of_two (h : x < y) (hcount : 2 ≤ count) :
    ∃ j, IsNearest ((y - x) / count) j ∧ (grid (finite x) (finite y) count).Covers x y (rung j) := by
  have hsingle : ¬ (count = 1 ∧ (gridFor (finite x) (finite y) count).last < (gridFor (finite x) (finite y) count).first) :=
    fun hone => by omega
  unfold grid
  dsimp only
  rw [if_neg hsingle]
  exact gridFor_eq h (by omega)

/-! ## Lists of ticks -/

theorem Grid.count_of_covers {g : Grid Extended} (h : g.Covers x y q) (hle : ⌈x / q⌉ ≤ ⌊y / q⌋) :
    (g.count : ℤ) = ⌊y / q⌋ - ⌈x / q⌉ + 1 := by
  have hspan : g.last - g.first = finite ((⌊y / q⌋ - ⌈x / q⌉ : ℤ) : ℝ) := by
    rw [h.first, h.last, Extended.finite_sub, Int.cast_sub]
  have hordered : g.first ≤ g.last := by
    rw [h.first, h.last, Extended.finite_le]
    exact_mod_cast hle
  unfold Grid.count
  dsimp only
  rw [hspan, if_pos ⟨hordered, rfl⟩]
  show (((Extended.truncate (finite _)).toNat + 1 : ℕ) : ℤ) = _
  rw [Extended.truncate_intCast]
  omega

/-- The multiples of a step in an interval, ascending. -/
noncomputable def multiples (x y q : ℝ) : List ℝ :=
  (List.range (⌊y / q⌋ - ⌈x / q⌉ + 1).toNat).map fun k : ℕ => ((⌈x / q⌉ + k : ℤ) : ℝ) * q

theorem mem_multiples (hq : 0 < q) (t : ℝ) :
    t ∈ multiples x y q ↔ (∃ k : ℤ, t = k * q) ∧ x ≤ t ∧ t ≤ y := by
  unfold multiples
  rw [List.mem_map]
  constructor
  · rintro ⟨k, hk, rfl⟩
    have hfirst : ⌈x / q⌉ ≤ ⌈x / q⌉ + k := by omega
    have hlast : ⌈x / q⌉ + k ≤ ⌊y / q⌋ := by
      have := List.mem_range.mp hk
      omega
    rw [Int.ceil_le, div_le_iff₀ hq] at hfirst
    rw [Int.le_floor, le_div_iff₀ hq] at hlast
    exact ⟨⟨_, rfl⟩, hfirst, hlast⟩
  · rintro ⟨⟨i, rfl⟩, hx, hy⟩
    rw [← div_le_iff₀ hq, ← Int.ceil_le] at hx
    rw [← le_div_iff₀ hq, ← Int.le_floor] at hy
    refine ⟨(i - ⌈x / q⌉).toNat, List.mem_range.mpr (by omega), ?_⟩
    rw [show ⌈x / q⌉ + ((i - ⌈x / q⌉).toNat : ℤ) = i by omega]

theorem pairwise_multiples (hq : 0 < q) : (multiples x y q).Pairwise (· < ·) := by
  unfold multiples
  refine List.Pairwise.map _ (fun i k hik => ?_) List.pairwise_lt_range
  refine mul_lt_mul_of_pos_right ?_ hq
  exact_mod_cast (show ⌈x / q⌉ + (i : ℤ) < ⌈x / q⌉ + k by omega)

theorem Grid.ascending_of_covers {g : Grid Extended} (h : g.Covers x y q) (hq : 0 < q) (hle : ⌈x / q⌉ ≤ ⌊y / q⌋) :
    g.ascending = (multiples x y q).map finite := by
  have hcount : g.count = (⌊y / q⌋ - ⌈x / q⌉ + 1).toNat := by
    have := Grid.count_of_covers h hle
    omega
  unfold Grid.ascending multiples
  rw [hcount, List.map_map]
  refine List.map_congr_left fun k _ => ?_
  rw [h.first, Extended.ofInt_eq, Extended.finite_add, ← Int.cast_add, h.value hq]
  rfl

/-- From the last multiple on they come in the reverse order. -/
theorem Grid.descending_of_covers {g : Grid Extended} (h : g.Covers x y q) (hle : ⌈x / q⌉ ≤ ⌊y / q⌋) :
    g.descending = g.ascending.reverse := by
  have hcount := Grid.count_of_covers h hle
  refine List.ext_getElem (by simp [Grid.descending, Grid.ascending]) fun k hk _ => ?_
  have hless : k < g.count := by simpa [Grid.descending] using hk
  simp only [Grid.descending, Grid.ascending, List.getElem_reverse, List.getElem_map, List.getElem_range,
    List.length_map, List.length_range]
  refine congrArg g.value ?_
  rw [h.first, h.last, Extended.ofInt_eq, Extended.ofInt_eq, Extended.finite_sub, Extended.finite_add, ← Int.cast_sub,
    ← Int.cast_add]
  exact congrArg (fun i : ℤ => finite i) (by omega)

/-- The step of an interval is that of its grid. -/
theorem step_of_covers (h : x < y) (hq : 0 < q) (hcovers : (grid (finite x) (finite y) count).Covers x y q) :
    step (finite x) (finite y) count = finite q := by
  have hnot : ¬ finite y < finite x := by
    rw [Extended.finite_lt]
    exact h.not_gt
  unfold step increment
  dsimp only
  rw [if_neg hnot, Extended.zero_eq]
  rcases hcovers.carries with hinc | hinc
  · rw [hinc, if_neg (by rw [Extended.finite_lt]; exact hq.not_gt)]
  · have hneg : -(1 / q) < 0 := neg_neg_of_pos (one_div_pos.mpr hq)
    rw [hinc, if_pos (Extended.finite_lt.mpr hneg), Extended.neg_finite, neg_neg, Extended.one_eq,
      Extended.finite_div (one_div_ne_zero hq.ne'), one_div_one_div]

theorem linear_of_lt (h : x < y) (hcount : 1 ≤ count) :
    linear (finite x) (finite y) count = (grid (finite x) (finite y) count).ascending ∧
      linear (finite y) (finite x) count = (grid (finite x) (finite y) count).descending := by
  have hsome : decide (count = 0) = false := decide_eq_false (by omega)
  have hlt : finite x < finite y := Extended.finite_lt.mpr h
  have hne : (finite x == finite y) = false := by
    rw [← Bool.not_eq_true, Extended.finite_beq]
    exact h.ne
  have hne' : (finite y == finite x) = false := by
    rw [← Bool.not_eq_true, Extended.finite_beq]
    exact h.ne'
  unfold linear
  simp [hsome, hne, hne', hlt, Extended.lt_asymm hlt]

/-- **Ticks are all multiples of a step.** Let `x < y` and let at least one part be asked for, in exact arithmetic. The
step is 1, 2 or 5 times a power of ten, and the ticks are its multiples from `x` to `y`, in ascending order. There is
a tick, and there are at most four for each part asked for. From `y` to `x` the same ticks come in reverse. -/
theorem linear_lists_multiples (h : x < y) (hcount : 1 ≤ count) :
    ∃ q : ℝ, ∃ ticks : List ℝ, (∃ m ∈ ({1, 2, 5} : Set ℝ), ∃ p : ℤ, q = m * 10 ^ p) ∧
      step (finite x) (finite y) count = finite q ∧
      linear (finite x) (finite y) count = ticks.map finite ∧ ticks.Pairwise (· < ·) ∧
      (∀ t, t ∈ ticks ↔ (∃ k : ℤ, t = k * q) ∧ x ≤ t ∧ t ≤ y) ∧ ticks ≠ [] ∧ ticks.length ≤ 4 * count ∧
      linear (finite y) (finite x) count = (ticks.map finite).reverse := by
  obtain ⟨j, hcovers, hle, hfew, -⟩ := grid_eq h hcount
  obtain ⟨hascending, hdescending⟩ := linear_of_lt h hcount
  have hlength : ((multiples x y (rung j)).length : ℤ) = ⌊y / rung j⌋ - ⌈x / rung j⌉ + 1 := by
    unfold multiples
    rw [List.length_map, List.length_range]
    omega
  rw [hdescending, Grid.descending_of_covers hcovers hle, hascending,
    Grid.ascending_of_covers hcovers (rung_pos j) hle]
  refine ⟨rung j, multiples x y (rung j), rung_is_step j,
    step_of_covers h (rung_pos j) hcovers, rfl, pairwise_multiples (rung_pos j),
    mem_multiples (rung_pos j), ?_, by omega, rfl⟩
  intro hnone
  rw [hnone, List.length_nil] at hlength
  omega

/-- An interval between two multiples of the step for a single part has a tick after all. -/
theorem linear_lists_multiples_single :
    (21 / 10 : ℝ) < 39 / 10 ∧ ∃ ticks : List ℝ, linear (finite (21 / 10)) (finite (39 / 10)) 1 = ticks.map finite ∧
      ticks ≠ [] ∧ (∀ t ∈ ticks, 21 / 10 ≤ t ∧ t ≤ 39 / 10) ∧ ticks.length ≤ 4 := by
  have hlt : (21 / 10 : ℝ) < 39 / 10 := by norm_num
  obtain ⟨q, ticks, -, -, hlinear, -, hmem, hne, hlength, -⟩ := linear_lists_multiples hlt (show 1 ≤ 1 by decide)
  exact ⟨hlt, ticks, hlinear, hne, fun t ht => ((hmem t).mp ht).2, hlength⟩

end VisualEncoding.Ticks
