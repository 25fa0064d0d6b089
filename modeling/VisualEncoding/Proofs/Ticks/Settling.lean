import VisualEncoding.Proofs.Ticks.Grids
import VisualEncoding.Proofs.Ticks.Outward
import VisualEncoding.Proofs.Ticks.Steps

/-!
# Round ends

Nicing moves the ends of an interval outward to multiples of its step, again and again until the step stays the same.
What has settled starts and ends with ticks of its own, and nicing it again changes nothing:

> `niceLinear_settles`: in exact arithmetic the result reaches as far as the interval, in its direction, and is its own
> result. If at least two parts are asked for the step always settles, and the result starts and ends with ticks.

Why it settles in time. From one round to the next an interval grows by less than two steps, so that the step climbs by
one rung at most (`rung_succ_of_outward`). Ends that are multiples of the rung before are moved by at most `4/3` of the
difference of the two rungs each (`outward_le`), so that the length less `8/3` steps does not grow while the step
climbs. For the next climb the interval has to be `7/5` steps long for each part; with two parts or more that leaves
less and less room, and after six rungs there is none (`settle_climbs`).
-/

namespace VisualEncoding.Ticks

open Extended (finite)

variable {lo hi q : ℝ} {i j : ℤ} {count : ℕ} {inc : Extended}

/-! ## Rounds -/

/-- Both ends are multiples of a step. -/
def IsAligned (lo hi q : ℝ) : Prop := (∃ m : ℤ, lo = m * q) ∧ ∃ n : ℤ, hi = n * q

theorem isAligned_outward (lo hi q : ℝ) : IsAligned (⌊lo / q⌋ * q) (⌈hi / q⌉ * q) q := ⟨⟨_, rfl⟩, ⟨_, rfl⟩⟩

/-- Ends that are multiples stay where they are. -/
theorem IsAligned.outward_eq (h : IsAligned lo hi q) (hq : q ≠ 0) : ⌊lo / q⌋ * q = lo ∧ ⌈hi / q⌉ * q = hi := by
  obtain ⟨⟨m, rfl⟩, n, rfl⟩ := h
  rw [mul_div_cancel_right₀ _ hq, mul_div_cancel_right₀ _ hq, Int.floor_intCast, Int.ceil_intCast]
  exact ⟨rfl, rfl⟩

theorem Carries.exists_finite (h : Carries inc q) (hq : 0 < q) : ∃ t : ℝ, inc = finite t ∧ t ≠ 0 := by
  rcases h with rfl | rfl
  · exact ⟨q, rfl, hq.ne'⟩
  · exact ⟨_, rfl, (neg_neg_of_pos (one_div_pos.mpr hq)).ne⟩

/-- An increment stands for one step. -/
theorem Carries.unique {q' : ℝ} (h : Carries inc q) (h' : Carries inc q') (hq : 0 < q) (hq' : 0 < q') : q = q' := by
  have hneg := one_div_pos.mpr hq
  have hneg' := one_div_pos.mpr hq'
  rcases h with rfl | rfl
  · rcases h' with heq | heq
    · exact Extended.finite.inj heq
    · have := Extended.finite.inj heq
      linarith
  · rcases h' with heq | heq
    · have := Extended.finite.inj heq
      linarith
    · have hsame := neg_injective (Extended.finite.inj heq)
      rwa [one_div, one_div, inv_inj] at hsame

theorem Carries.beq_self (h : Carries inc q) : (inc == inc) = true := by
  rcases h with rfl | rfl
  · exact Extended.finite_beq.mpr rfl
  · exact Extended.finite_beq.mpr rfl

/-- Numbers that are found equal are the same. -/
theorem eq_of_beq {a b : Extended} (h : (a == b) = true) : a = b := by
  obtain ⟨x, ha, hb⟩ := of_decide_eq_true h
  exact Extended.place?_injective (ha.trans hb.symm)

/-- A round either finds the step from before or moves the ends outward to multiples of its step. -/
theorem settle_succ (hinc : increment (finite lo) (finite hi) count = inc) (hcarries : Carries inc q) (hq : 0 < q)
    (rounds : ℕ) (previous : Option Extended) :
    settle count (rounds + 1) previous (finite lo) (finite hi)
      = if previous.any (· == inc) then some (finite lo, finite hi)
        else settle count rounds (some inc) (finite (⌊lo / q⌋ * q)) (finite (⌈hi / q⌉ * q)) := by
  obtain ⟨t, ht, hne⟩ := hcarries.exists_finite hq
  have hproper : (!Scalar.isFinite inc || inc == (0 : Extended)) = false := by
    rw [ht, Extended.isFinite_finite, Extended.zero_eq, Bool.not_true, Bool.false_or, ← Bool.not_eq_true,
      Extended.finite_beq]
    exact hne
  rw [settle]
  simp only [hinc, hproper, Bool.false_eq_true, if_false]
  refine if_congr Iff.rfl rfl ?_
  rcases hcarries with rfl | rfl
  · rw [if_pos (by rw [Extended.zero_eq, Extended.finite_lt]; exact hq), Extended.finite_div hq.ne',
      Extended.finite_div hq.ne', Extended.floor_finite, Extended.ceil_finite, Extended.finite_mul, Extended.finite_mul]
  · have hneg : -(1 / q) < 0 := neg_neg_of_pos (one_div_pos.mpr hq)
    have hscaled : ∀ u : ℝ, u * -(1 / q) = -(u / q) := fun u => by ring
    have hback : ∀ k : ℤ, ((-k : ℤ) : ℝ) / -(1 / q) = k * q := fun k => by
      push_cast
      rw [neg_div_neg_eq, div_div_eq_mul_div, div_one]
    rw [if_neg (by rw [Extended.zero_eq, Extended.finite_lt]; exact hneg.not_gt), Extended.finite_mul,
      Extended.finite_mul, Extended.ceil_finite, Extended.floor_finite, Extended.finite_div hneg.ne,
      Extended.finite_div hneg.ne, hscaled, hscaled, Int.ceil_neg, Int.floor_neg, hback, hback]

/-- The step of an interval as it is carried. -/
theorem increment_of_covers (h : (grid (finite lo) (finite hi) count).Covers lo hi q) :
    ∃ inc, increment (finite lo) (finite hi) count = inc ∧ Carries inc q := ⟨_, rfl, h.carries⟩

/-- Ends that are multiples of the step of their interval settle in two rounds. -/
theorem settle_of_aligned (hcovers : (grid (finite lo) (finite hi) count).Covers lo hi q) (hq : 0 < q)
    (haligned : IsAligned lo hi q) (rounds : ℕ) (previous : Option Extended) :
    settle count (rounds + 2) previous (finite lo) (finite hi) = some (finite lo, finite hi) := by
  obtain ⟨inc, hinc, hcarries⟩ := increment_of_covers hcovers
  obtain ⟨hlo, hhi⟩ := haligned.outward_eq hq.ne'
  rw [settle_succ hinc hcarries hq, hlo, hhi]
  split
  · rfl
  · rw [settle_succ hinc hcarries hq, if_pos]
    exact hcarries.beq_self

/-- The ends that a round leaves are multiples of its step. -/
theorem outward_lt (h : lo < hi) (hq : 0 < q) : ⌊lo / q⌋ * q < ⌈hi / q⌉ * q :=
  ((floor_div_mul_le lo hq).trans_lt h).trans_le (le_ceil_div_mul hi hq)

/-- What has settled are multiples of their own step. The induction is on the rounds; the step of the round before is
one that the ends are multiples of. -/
theorem settle_isAligned {a b : Extended} (hcount : 1 ≤ count) (h : lo < hi) (rounds : ℕ) (previous : Option Extended)
    (hprevious : ∀ inc ∈ previous, ∀ q, 0 < q → Carries inc q → IsAligned lo hi q)
    (hsettled : settle count rounds previous (finite lo) (finite hi) = some (a, b)) :
    ∃ lo' hi' j, a = finite lo' ∧ b = finite hi' ∧ lo' < hi' ∧
      (grid (finite lo') (finite hi') count).Covers lo' hi' (rung j) ∧ ⌈lo' / rung j⌉ ≤ ⌊hi' / rung j⌋ ∧
      IsAligned lo' hi' (rung j) := by
  induction rounds generalizing previous lo hi with
  | zero => nomatch hsettled
  | succ rounds ih =>
    obtain ⟨j, hcovers, hle, -⟩ := grid_eq h hcount
    obtain ⟨inc, hinc, hcarries⟩ := increment_of_covers hcovers
    rw [settle_succ hinc hcarries (rung_pos j)] at hsettled
    split at hsettled
    next hsame =>
      obtain ⟨inc', hinc', hbeq⟩ := (Option.any_eq_true _ _).mp hsame
      cases hsettled
      exact ⟨lo, hi, j, rfl, rfl, h, hcovers, hle, hprevious inc' hinc' _ (rung_pos j) (eq_of_beq hbeq ▸ hcarries)⟩
    next =>
      refine ih (outward_lt h (rung_pos j)) _ (fun inc' hinc' q' hq' hcarries' => ?_) hsettled
      cases hinc'
      rw [hcarries'.unique hcarries hq' (rung_pos j)]
      exact isAligned_outward lo hi _

/-! ## Climbing -/

/-- An interval that grows by no more than a step for each part has the same step or the next. -/
theorem rung_succ_of_outward {length length' : ℝ} {j' : ℤ} (h : IsNearest length j) (h' : IsNearest length' j')
    (hpos : 0 ≤ length) (hle : length ≤ length') (hgrowth : length' ≤ length + rung j) : j' = j ∨ j' = j + 1 := by
  have hlow := h.le_of_le h' hpos hle
  have hhigh : j' < j + 2 := by
    by_contra hnot
    have hupper : rung (j + 1) ≤ rung (j' - 1) := rung_strictMono.monotone (by omega)
    have hupper' : rung (j + 2) ≤ rung j' := rung_strictMono.monotone (by omega)
    have hprod := mul_le_mul hupper hupper' (rung_pos _).le (rung_pos _).le
    have hle' := h'.le
    have hlt := h.lt
    have hsquare : length' ^ 2 ≤ (length + rung j) ^ 2 := pow_le_pow_left₀ (hpos.trans hle) hgrowth 2
    obtain ⟨t, ht, ⟨h1, h2, h3⟩ | ⟨h1, h2, h3⟩ | ⟨h1, h2, h3⟩⟩ := rungs_cases j
    · rw [h1, h2] at hlt
      have hshort : length < 3 / 2 * t := by nlinarith
      rw [h2, h3] at hprod
      rw [h1] at hsquare
      nlinarith
    · rw [h1, h2] at hlt
      have hshort : length < 16 / 5 * t := by nlinarith
      rw [h2, h3] at hprod
      rw [h1] at hsquare
      nlinarith
    · rw [h1, h2] at hlt
      have hshort : length < 71 / 10 * t := by nlinarith
      rw [h2, h3] at hprod
      rw [h1] at hsquare
      nlinarith
  omega

/-- What a multiple loses down to a multiple of a coarser step. -/
theorem sub_floor_mul_le {t : ℝ} (ht : 0 < t) (n : ℤ) {b : ℤ} (hb : 0 < b) :
    n * t - ⌊n * t / (b * t)⌋ * (b * t) ≤ (b - 1) * t := by
  have hb' : (0 : ℝ) < b := by exact_mod_cast hb
  have hfloor := Int.lt_floor_add_one (n * t / (b * t))
  rw [div_lt_iff₀ (mul_pos hb' ht), ← mul_assoc] at hfloor
  have hlt : n < (⌊n * t / (b * t)⌋ + 1) * b := by exact_mod_cast lt_of_mul_lt_mul_right hfloor ht.le
  have hle : (n : ℝ) ≤ ⌊n * t / (b * t)⌋ * b + (b - 1) := by
    exact_mod_cast (show n ≤ ⌊n * t / (b * t)⌋ * b + (b - 1) by linarith)
  nlinarith

/-- A multiple of a rung is moved down to one of the next by at most `4/3` of their difference. -/
theorem sub_floor_rung_le (n j : ℤ) :
    n * rung j - ⌊n * rung j / rung (j + 1)⌋ * rung (j + 1) ≤ 4 / 3 * (rung (j + 1) - rung j) := by
  obtain ⟨t, ht, ⟨h1, h2⟩ | ⟨h1, h2⟩⟩ := rung_succ_cases j
  · have hle := sub_floor_mul_le ht n (b := 2) (by decide)
    rw [h1, h2]
    push_cast at hle
    linarith
  · have hle := sub_floor_mul_le ht (n * 2) (b := 5) (by decide)
    rw [h1, h2]
    push_cast at hle
    rw [← mul_assoc]
    linarith

/-- An interval between multiples of a rung grows by at most `8/3` of its difference to the next. -/
theorem outward_le (h : IsAligned lo hi (rung j)) :
    ⌈hi / rung (j + 1)⌉ * rung (j + 1) - ⌊lo / rung (j + 1)⌋ * rung (j + 1)
      ≤ hi - lo + 8 / 3 * (rung (j + 1) - rung j) := by
  obtain ⟨⟨m, rfl⟩, n, rfl⟩ := h
  have hdown := sub_floor_rung_le m j
  have hup := sub_floor_rung_le (-n) j
  rw [Int.cast_neg, neg_mul, neg_div, Int.floor_neg, Int.cast_neg, neg_mul] at hup
  linarith

/-- A round moves the ends by less than two steps in all. -/
theorem outward_lt_add (lo hi : ℝ) (hq : 0 < q) : ⌈hi / q⌉ * q - ⌊lo / q⌋ * q < hi - lo + 2 * q := by
  have hfloor := Int.lt_floor_add_one (lo / q)
  have hceil := Int.ceil_lt_add_one (hi / q)
  rw [div_lt_iff₀ hq] at hfloor
  rw [← sub_lt_iff_lt_add, lt_div_iff₀ hq] at hceil
  linarith

/-- After a round the step is the same or the next. -/
theorem rung_outward (h : lo < hi) (hcount : 2 ≤ count) (hnearest : IsNearest ((hi - lo) / count) j) :
    ∃ j', IsNearest ((⌈hi / rung j⌉ * rung j - ⌊lo / rung j⌋ * rung j) / count) j' ∧
      (grid (finite (⌊lo / rung j⌋ * rung j)) (finite (⌈hi / rung j⌉ * rung j)) count).Covers
        (⌊lo / rung j⌋ * rung j) (⌈hi / rung j⌉ * rung j) (rung j') ∧ (j' = j ∨ j' = j + 1) := by
  have hcount' : (2 : ℝ) ≤ count := by exact_mod_cast hcount
  have hq := rung_pos j
  obtain ⟨j', hnearest', hcovers⟩ := grid_eq_of_two (outward_lt h hq) hcount
  refine ⟨j', hnearest', hcovers, rung_succ_of_outward hnearest hnearest' ?_ ?_ ?_⟩
  · exact div_nonneg (by linarith) (by linarith)
  · have hlo := floor_div_mul_le lo hq
    have hhi := le_ceil_div_mul hi hq
    exact div_le_div_of_nonneg_right (by linarith) (by linarith)
  · have hgrowth := outward_lt_add lo hi hq
    rw [div_add' _ _ _ (by linarith)]
    refine div_le_div_of_nonneg_right ?_ (by linarith)
    nlinarith

/-- A round with the nearest rung for its step. -/
theorem settle_succ_of_two (h : lo < hi) (hcount : 2 ≤ count) (hnearest : IsNearest ((hi - lo) / count) j) (rounds : ℕ)
    (previous : Option Extended) :
    ∃ inc, settle count (rounds + 1) previous (finite lo) (finite hi)
      = if previous.any (· == inc) then some (finite lo, finite hi)
        else settle count rounds (some inc) (finite (⌊lo / rung j⌋ * rung j)) (finite (⌈hi / rung j⌉ * rung j)) := by
  obtain ⟨j', hnearest', hcovers⟩ := grid_eq_of_two h hcount
  obtain ⟨inc, hinc, hcarries⟩ := increment_of_covers hcovers
  have hpart : 0 ≤ (hi - lo) / count := div_nonneg (by linarith) (Nat.cast_nonneg _)
  obtain rfl : j = j' := le_antisymm (hnearest.le_of_le hnearest' hpart le_rfl) (hnearest'.le_of_le hnearest hpart le_rfl)
  exact ⟨inc, settle_succ hinc hcarries (rung_pos j) rounds previous⟩

/-- The step climbs to the rung `i + 6` at most, if the interval is at first no longer than a step of `i` asks for: the
length less `8/3` steps does not grow. The induction is on the rungs that are left. -/
theorem settle_climbs (hcount : 2 ≤ count) (left : ℕ) (previous : Option Extended) (h : lo < hi)
    (hnearest : IsNearest ((hi - lo) / count) (j + 1)) (haligned : IsAligned lo hi (rung j))
    (hroom : hi - lo - 8 / 3 * rung j ≤ 8 / 5 * count * rung i) (hleft : j + left = i + 6) :
    ∃ a b, settle count (left + 3) previous (finite lo) (finite hi) = some (a, b) := by
  have hcount' : (2 : ℝ) ≤ count := by exact_mod_cast hcount
  induction left generalizing j lo hi previous with
  | zero =>
    -- the next climb would ask for more room than there is
    exfalso
    have hj : rung j = 100 * rung i := by
      rw [show j = i + 3 + 3 by omega, rung_add_three, rung_add_three]
      ring
    have hpos := rung_pos i
    have hpart : 7 / 5 * rung j ≤ (hi - lo) / count := by
      have hle := hnearest.le
      rw [add_sub_cancel_right] at hle
      have hpart : 0 ≤ (hi - lo) / count := div_nonneg (by linarith) (by linarith)
      have htwice : 2 * rung j ≤ rung (j + 1) := by
        obtain ⟨t, ht, ⟨h1, h2⟩ | ⟨h1, h2⟩⟩ := rung_succ_cases j
        · rw [h1, h2]
        · rw [h1, h2]
          linarith
      have := rung_pos j
      refine (abs_le_of_sq_le_sq' ?_ hpart).2
      nlinarith
    rw [le_div_iff₀ (by linarith), hj] at hpart
    rw [hj] at hroom
    nlinarith
  | succ left ih =>
    have hq := rung_pos (j + 1)
    have hlt := outward_lt h hq
    have hgrowth := outward_le haligned
    obtain ⟨j', hnearest', hcovers, hj'⟩ := rung_outward h hcount hnearest
    obtain ⟨inc, hround⟩ := settle_succ_of_two h hcount hnearest (left + 3) previous
    rw [show left + 1 + 3 = left + 3 + 1 by ring, hround]
    split
    · exact ⟨_, _, rfl⟩
    · rcases hj' with rfl | rfl
      · exact ⟨_, _, settle_of_aligned hcovers hq (isAligned_outward lo hi _) (left + 1) _⟩
      · exact ih _ hlt hnearest' (isAligned_outward lo hi _) (by linarith) (by push_cast at hleft; linarith)

/-- For two parts or more the ends settle in time. -/
theorem exists_settle (h : lo < hi) (hcount : 2 ≤ count) :
    ∃ a b, settle count settlingRounds none (finite lo) (finite hi) = some (a, b) := by
  have hcount' : (2 : ℝ) ≤ count := by exact_mod_cast hcount
  obtain ⟨j, hnearest, -⟩ := grid_eq_of_two h hcount
  have hq := rung_pos j
  have hlt := outward_lt h hq
  have hgrowth := outward_lt_add lo hi hq
  obtain ⟨j', hnearest', hcovers, hj'⟩ := rung_outward h hcount hnearest
  obtain ⟨inc, hround⟩ := settle_succ_of_two h hcount hnearest 9 none
  show ∃ a b, settle count (9 + 1) none (finite lo) (finite hi) = some (a, b)
  rw [hround, if_neg (by simp)]
  rcases hj' with rfl | rfl
  · exact ⟨_, _, settle_of_aligned hcovers hq (isAligned_outward lo hi _) 7 _⟩
  · refine settle_climbs hcount 6 _ hlt hnearest' (isAligned_outward lo hi _) ?_ rfl
    have hpart : (hi - lo) / count ≤ 8 / 5 * rung j := by
      have := hnearest.lt_rung
      refine (abs_le_of_sq_le_sq' ?_ (by linarith)).2
      nlinarith
    rw [div_le_iff₀ (by linarith)] at hpart
    linarith

/-! ## Settled ends -/

theorem ends_of_multiples (haligned : IsAligned lo hi q) (hq : 0 < q) (h : ⌈lo / q⌉ ≤ ⌊hi / q⌋) :
    (multiples lo hi q).head? = some lo ∧ (multiples lo hi q).getLast? = some hi := by
  obtain ⟨⟨m, rfl⟩, n, rfl⟩ := haligned
  unfold multiples
  rw [mul_div_cancel_right₀ _ hq.ne', mul_div_cancel_right₀ _ hq.ne', Int.ceil_intCast, Int.floor_intCast] at h ⊢
  obtain ⟨k, hk⟩ : ∃ k : ℕ, (n - m + 1).toNat = k + 1 := ⟨(n - m).toNat, by omega⟩
  have hlast : m + (k : ℤ) = n := by omega
  rw [hk, List.head?_map, List.getLast?_map, List.range_succ_eq_map, List.head?_cons, ← List.range_succ_eq_map,
    List.range_succ, List.getLast?_concat]
  simp [← hlast]

theorem niceLinear_of_lt (h : lo < hi) (count : ℕ) :
    niceLinear (finite lo) (finite hi) count
      = (settle count settlingRounds none (finite lo) (finite hi)).getD (finite lo, finite hi) := by
  have hnot : ¬ finite hi < finite lo := by
    rw [Extended.finite_lt]
    exact h.not_gt
  have hne : (finite lo == finite hi) = false := by
    rw [← Bool.not_eq_true, Extended.finite_beq]
    exact h.ne
  unfold niceLinear
  simp only [decide_eq_false hnot, Bool.false_eq_true, if_false, Extended.isFinite_finite, Bool.not_true,
    Bool.false_or, hne]
  cases settle count settlingRounds none (finite lo) (finite hi) <;> rfl

/-- What nicing an ascending interval leaves: the result is wider, stays under nicing, and has settled if there are two
parts or more. -/
theorem exists_niced (h : lo < hi) (hcount : 1 ≤ count) :
    ∃ lo' hi', niceLinear (finite lo) (finite hi) count = (finite lo', finite hi') ∧ lo' ≤ lo ∧ hi ≤ hi' ∧
      niceLinear (finite lo') (finite hi') count = (finite lo', finite hi') ∧
      (2 ≤ count → ∃ j, (grid (finite lo') (finite hi') count).Covers lo' hi' (rung j) ∧
        ⌈lo' / rung j⌉ ≤ ⌊hi' / rung j⌋ ∧ IsAligned lo' hi' (rung j)) := by
  rw [niceLinear_of_lt h]
  cases hsettled : settle count settlingRounds none (finite lo) (finite hi) with
  | none =>
    refine ⟨lo, hi, rfl, le_rfl, le_rfl, ?_, fun htwo => ?_⟩
    · rw [niceLinear_of_lt h, hsettled, Option.getD_none]
    · obtain ⟨a, b, hsome⟩ := exists_settle h htwo
      rw [hsettled] at hsome
      nomatch hsome
  | some ends =>
    obtain ⟨a, b⟩ := ends
    obtain ⟨lo', hi', j, rfl, rfl, hlt, hcovers, hle, haligned⟩ :=
      settle_isAligned hcount h settlingRounds none (fun _ hnone => nomatch hnone) hsettled
    obtain ⟨_, _, ⟨⟩, ⟨⟩, hlo, hhi⟩ := settle_outward count settlingRounds none hsettled
    refine ⟨lo', hi', rfl, hlo, hhi, ?_, fun _ => ⟨j, hcovers, hle, haligned⟩⟩
    rw [niceLinear_of_lt hlt, show settlingRounds = 8 + 2 from rfl,
      settle_of_aligned hcovers (rung_pos j) haligned 8 none, Option.getD_some]

/-- **Nicing settles, and agrees with ticks.** Let `x` and `y` differ and let at least one part be asked for, in exact
arithmetic. The ends that nicing leaves lie in the direction of the span and contain it, and nicing them again leaves
them where they are. If two parts or more are asked for, the step repeats within the rounds that it is given; both ends
are then multiples of the step of the result, and its ticks start at the one and end at the other. -/
theorem niceLinear_settles {x y : ℝ} (h : x ≠ y) (hcount : 1 ≤ count) :
    ∃ x' y', niceLinear (finite x) (finite y) count = (finite x', finite y') ∧
      (x < y → x' ≤ x ∧ y ≤ y') ∧ (y < x → y' ≤ y ∧ x ≤ x') ∧
      niceLinear (finite x') (finite y') count = (finite x', finite y') ∧
      (2 ≤ count →
        (∃ a b, settle count settlingRounds none (finite (min x y)) (finite (max x y)) = some (a, b)) ∧
        ∃ q, step (finite x') (finite y') count = finite q ∧ q ≠ 0 ∧ IsAligned x' y' q ∧
          (linear (finite x') (finite y') count).head? = some (finite x') ∧
          (linear (finite x') (finite y') count).getLast? = some (finite y')) := by
  rcases h.lt_or_gt with hlt | hgt
  · obtain ⟨x', y', hnice, hx, hy, hagain, hsettled⟩ := exists_niced hlt hcount
    refine ⟨x', y', hnice, fun _ => ⟨hx, hy⟩, fun hnot => absurd hlt hnot.asymm, hagain, fun htwo => ?_⟩
    obtain ⟨j, hcovers, hle, haligned⟩ := hsettled htwo
    have hlt' : x' < y' := by linarith
    obtain ⟨hhead, hlast⟩ := ends_of_multiples haligned (rung_pos j) hle
    rw [min_eq_left hlt.le, max_eq_right hlt.le]
    refine ⟨exists_settle hlt htwo, rung j, step_of_covers hlt' (rung_pos j) hcovers, (rung_pos j).ne', haligned, ?_⟩
    rw [(linear_of_lt hlt' hcount).1, Grid.ascending_of_covers hcovers (rung_pos j) hle, List.head?_map,
      List.getLast?_map, hhead, hlast]
    exact ⟨rfl, rfl⟩
  · obtain ⟨y', x', hnice, hy, hx, hagain, hsettled⟩ := exists_niced hgt hcount
    have hlt' : y' < x' := by linarith
    refine ⟨x', y', ?_, fun hnot => absurd hgt hnot.asymm, fun _ => ⟨hy, hx⟩, ?_, fun htwo => ?_⟩
    · rw [niceLinear_swap (Extended.finite_lt.mpr hgt), hnice, Prod.swap_prod_mk]
    · rw [niceLinear_swap (Extended.finite_lt.mpr hlt'), hagain, Prod.swap_prod_mk]
    · obtain ⟨j, hcovers, hle, ⟨m, hm⟩, n, hn⟩ := hsettled htwo
      obtain ⟨hhead, hlast⟩ := ends_of_multiples ⟨⟨m, hm⟩, n, hn⟩ (rung_pos j) hle
      rw [min_eq_right hgt.le, max_eq_left hgt.le]
      refine ⟨exists_settle hgt htwo, -rung j, ?_, neg_ne_zero.mpr (rung_pos j).ne', ⟨⟨-n, ?_⟩, -m, ?_⟩, ?_⟩
      · rw [step_swap hlt', step_of_covers hlt' (rung_pos j) hcovers, Extended.neg_finite]
      · rw [hn, Int.cast_neg, neg_mul_neg]
      · rw [hm, Int.cast_neg, neg_mul_neg]
      · rw [(linear_of_lt hlt' hcount).2, Grid.descending_of_covers hcovers hle,
          Grid.ascending_of_covers hcovers (rung_pos j) hle, List.head?_reverse, List.getLast?_reverse,
          List.head?_map, List.getLast?_map, hhead, hlast]
        exact ⟨rfl, rfl⟩

/-- A span given from its upper end settles when it is cut into ten parts. -/
theorem niceLinear_settles_backwards :
    (97 : ℝ) ≠ 3 ∧ ∃ x' y', niceLinear (finite 97) (finite 3) 10 = (finite x', finite y') ∧ y' ≤ 3 ∧ 97 ≤ x' ∧
      (linear (finite x') (finite y') 10).head? = some (finite x') ∧
      (linear (finite x') (finite y') 10).getLast? = some (finite y') := by
  have hne : (97 : ℝ) ≠ 3 := by norm_num
  obtain ⟨x', y', hnice, -, houtward, -, hsettled⟩ := niceLinear_settles hne (show 1 ≤ 10 by decide)
  obtain ⟨hlo, hhi⟩ := houtward (by norm_num)
  obtain ⟨-, -, -, -, -, hfirst, hlast⟩ := hsettled (by decide)
  exact ⟨hne, x', y', hnice, hlo, hhi, hfirst, hlast⟩

end VisualEncoding.Ticks
