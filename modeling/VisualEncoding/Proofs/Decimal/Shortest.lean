import VisualEncoding.Decimal.Shortest
import VisualEncoding.Proofs.Scalar.Rounding

/-!
# The search for the fewest digits

The search tries one grid of multiples of a power of ten after the other. What it finds on a grid lies in the interval
that rounds to the number (`isWithin_of_gridHit?`), and it finds something wherever a multiple is inside
(`gridHit?_ne_none`): the interval has no gaps, so the neighbour on the same side of the number is inside as well.

> `shortest_spec`: the digits of a number round to it, and they are not more than a multiple inside needs.
-/

namespace VisualEncoding.Decimal

variable {m c n : ℕ} {e p : ℤ} {q r : ℚ}

/-! ## The interval -/

/-- Between the ends of the interval that rounds to a mantissa and an exponent, or at one of them. -/
def IsWithin (m : ℕ) (e : ℤ) (q : ℚ) : Prop :=
  (roundingInterval m e).1 * 2 ^ (e - 2) ≤ q ∧ q ≤ (roundingInterval m e).2 * 2 ^ (e - 2)

/-- Between the ends of the interval. -/
def IsInside (m : ℕ) (e : ℤ) (q : ℚ) : Prop :=
  (roundingInterval m e).1 * 2 ^ (e - 2) < q ∧ q < (roundingInterval m e).2 * 2 ^ (e - 2)

theorem IsInside.isWithin (h : IsInside m e q) : IsWithin m e q := ⟨h.1.le, h.2.le⟩

theorem four_mul_zpow (m : ℕ) (e : ℤ) : (m : ℚ) * 2 ^ e = (4 * m : ℕ) * 2 ^ (e - 2) := by
  rw [zpow_sub₀ two_ne_zero]
  push_cast
  ring

/-- The number itself is inside. -/
theorem isInside_self (hm : 0 < m) (e : ℤ) : IsInside m e (m * 2 ^ e) := by
  have hpos := Double.two_zpow_pos (e - 2)
  have hlow : (roundingInterval m e).1 < 4 * m := by
    unfold roundingInterval
    dsimp only
    split <;> omega
  have hhigh : 4 * m < (roundingInterval m e).2 := by
    unfold roundingInterval
    dsimp only
    omega
  rw [four_mul_zpow]
  exact ⟨mul_lt_mul_of_pos_right (by exact_mod_cast hlow) hpos, mul_lt_mul_of_pos_right (by exact_mod_cast hhigh) hpos⟩

theorem IsInside.between (hq : IsInside m e q) (hr : IsInside m e r) {t : ℚ} (hle : q ≤ t) (hle' : t ≤ r) :
    IsInside m e t := ⟨hq.1.trans_le hle, hle'.trans_lt hr.2⟩

theorem IsWithin.pos (hm : 0 < m) (h : IsWithin m e q) : 0 < q := by
  have hlow : 0 < (roundingInterval m e).1 := by
    unfold roundingInterval
    dsimp only
    split <;> omega
  have hlow : (0 : ℚ) < (roundingInterval m e).1 := by exact_mod_cast hlow
  exact (mul_pos hlow (Double.two_zpow_pos _)).trans_le h.1

/-! ## A grid -/

/-- A quarter of the unit in the last place, and the step of the grid, in a unit of their own. -/
def quarterOf (e p : ℤ) : ℕ := (powerRatio 2 (e - 2)).1 * (powerRatio 10 p).2

def stepOf (e p : ℤ) : ℕ := (powerRatio 2 (e - 2)).2 * (powerRatio 10 p).1

/-- Whether a multiple on the grid rounds to the number. -/
def hits (m : ℕ) (e p : ℤ) (c : ℕ) : Bool :=
  let low := (roundingInterval m e).1 * quarterOf e p
  let high := (roundingInterval m e).2 * quarterOf e p
  (low < c * stepOf e p && c * stepOf e p < high) || (m % 2 == 0 && (c * stepOf e p == low || c * stepOf e p == high))

theorem gridHit?_eq (m : ℕ) (e p : ℤ) :
    gridHit? m e p =
      match hits m e p (4 * m * quarterOf e p / stepOf e p), hits m e p (4 * m * quarterOf e p / stepOf e p + 1) with
      | true, true => some (roundHalfEven (4 * m * quarterOf e p) (stepOf e p))
      | true, false => some (4 * m * quarterOf e p / stepOf e p)
      | false, true => some (4 * m * quarterOf e p / stepOf e p + 1)
      | false, false => none := rfl

theorem exists_unit (e p : ℤ) :
    ∃ u : ℚ, 0 < u ∧ (quarterOf e p : ℚ) = u * 2 ^ (e - 2) ∧ (stepOf e p : ℚ) = u * 10 ^ p := by
  have htwo := cast_powerRatio two_ne_zero (e - 2)
  have hten := cast_powerRatio (b := 10) (by decide) p
  have hpos : 0 < (powerRatio 2 (e - 2)).2 * (powerRatio 10 p).2 :=
    Nat.mul_pos (Nat.pow_pos (by decide)) (Nat.pow_pos (by decide))
  refine ⟨((powerRatio 2 (e - 2)).2 * (powerRatio 10 p).2 : ℕ), by exact_mod_cast hpos, ?_, ?_⟩
  · unfold quarterOf
    push_cast at htwo ⊢
    rw [htwo]
    ring
  · unfold stepOf
    push_cast at hten ⊢
    rw [hten]
    ring

theorem stepOf_pos (e p : ℤ) : 0 < stepOf e p :=
  Nat.mul_pos (Nat.pow_pos (by decide)) (Nat.pow_pos (by decide))

/-- Multiples are compared as the numbers that they stand for. -/
theorem mul_quarterOf_lt_iff (a : ℕ) : a * quarterOf e p < c * stepOf e p ↔ (a : ℚ) * 2 ^ (e - 2) < c * 10 ^ p := by
  obtain ⟨u, hu, hquarter, hstep⟩ := exists_unit e p
  rw [← Nat.cast_lt (α := ℚ), Nat.cast_mul, Nat.cast_mul, hquarter, hstep, mul_left_comm, mul_left_comm (c : ℚ),
    mul_lt_mul_iff_right₀ hu]

theorem mul_stepOf_lt_iff (a : ℕ) : c * stepOf e p < a * quarterOf e p ↔ (c : ℚ) * 10 ^ p < a * 2 ^ (e - 2) := by
  obtain ⟨u, hu, hquarter, hstep⟩ := exists_unit e p
  rw [← Nat.cast_lt (α := ℚ), Nat.cast_mul, Nat.cast_mul, hquarter, hstep, mul_left_comm, mul_left_comm (a : ℚ),
    mul_lt_mul_iff_right₀ hu]

theorem roundingInterval_le (m : ℕ) (e : ℤ) : (roundingInterval m e).1 ≤ (roundingInterval m e).2 := by
  unfold roundingInterval
  dsimp only
  split <;> omega

theorem isWithin_of_hits (h : hits m e p c = true) : IsWithin m e (c * 10 ^ p) := by
  have hbounds : (roundingInterval m e).1 * quarterOf e p ≤ c * stepOf e p ∧
      c * stepOf e p ≤ (roundingInterval m e).2 * quarterOf e p := by
    have hle : (roundingInterval m e).1 * quarterOf e p ≤ (roundingInterval m e).2 * quarterOf e p :=
      Nat.mul_le_mul_right _ (roundingInterval_le m e)
    simp only [hits, Bool.or_eq_true, Bool.and_eq_true, decide_eq_true_eq, beq_iff_eq] at h
    omega
  exact ⟨le_of_not_gt fun hlt => absurd hbounds.1 (Nat.not_le_of_lt ((mul_stepOf_lt_iff _).mpr hlt)),
    le_of_not_gt fun hlt => absurd hbounds.2 (Nat.not_le_of_lt ((mul_quarterOf_lt_iff _).mpr hlt))⟩

theorem hits_of_isInside (h : IsInside m e (c * 10 ^ p)) : hits m e p c = true := by
  have hlow := (mul_quarterOf_lt_iff _).mpr h.1
  have hhigh := (mul_stepOf_lt_iff _).mpr h.2
  unfold hits
  dsimp only
  rw [decide_eq_true hlow, decide_eq_true hhigh]
  rfl

/-- The multiple that is found rounds to the number, and is the next one or closer. -/
theorem isWithin_of_gridHit? (h : gridHit? m e p = some c) :
    IsWithin m e (c * 10 ^ p) ∧ (c : ℚ) * 10 ^ p ≤ m * 2 ^ e + 10 ^ p := by
  rw [gridHit?_eq] at h
  have hround := roundHalfEven_eq_or (4 * m * quarterOf e p) (stepOf e p)
  have hfloor := Nat.div_mul_le_self (4 * m * quarterOf e p) (stepOf e p)
  generalize roundHalfEven (4 * m * quarterOf e p) (stepOf e p) = rounded at h hround
  generalize 4 * m * quarterOf e p / stepOf e p = below at h hround hfloor
  have hhit : hits m e p c = true ∧ c ≤ below + 1 := by
    split at h
    next hbelow habove =>
      cases h
      rcases hround with ⟨heq, -⟩ | ⟨heq, -⟩
      · exact ⟨heq ▸ hbelow, by omega⟩
      · exact ⟨heq ▸ habove, by omega⟩
    next hbelow _ =>
      cases h
      exact ⟨hbelow, by omega⟩
    next _ habove =>
      cases h
      exact ⟨habove, by omega⟩
    next => nomatch h
  refine ⟨isWithin_of_hits hhit.1, ?_⟩
  have hfloor : ¬ 4 * m * quarterOf e p < below * stepOf e p := Nat.not_lt_of_le hfloor
  rw [mul_quarterOf_lt_iff, ← four_mul_zpow, not_lt] at hfloor
  have hc : (c : ℚ) ≤ below + 1 := by exact_mod_cast hhit.2
  have hpos : (0 : ℚ) < 10 ^ p := zpow_pos (by norm_num) p
  linarith [mul_le_mul_of_nonneg_right hc hpos.le]

/-- Where nothing is found, no multiple is inside: one that is would have the neighbour inside that is as close to the
number or closer. -/
theorem gridHit?_ne_none (hm : 0 < m) (h : IsInside m e (c * 10 ^ p)) : gridHit? m e p ≠ none := by
  rw [gridHit?_eq]
  have hfloor : ¬ 4 * m * quarterOf e p < 4 * m * quarterOf e p / stepOf e p * stepOf e p :=
    Nat.not_lt_of_le (Nat.div_mul_le_self _ _)
  have hceil : 4 * m * quarterOf e p < (4 * m * quarterOf e p / stepOf e p + 1) * stepOf e p :=
    (Nat.lt_mul_div_succ _ (stepOf_pos e p)).trans_eq (Nat.mul_comm _ _)
  rw [mul_quarterOf_lt_iff, ← four_mul_zpow] at hfloor hceil
  generalize 4 * m * quarterOf e p / stepOf e p = below at hfloor hceil
  have hpos : (0 : ℚ) < 10 ^ p := zpow_pos (by norm_num) p
  rcases Nat.lt_or_ge below c with hlt | hge
  · have hc : ((below + 1 : ℕ) : ℚ) ≤ c := by exact_mod_cast hlt
    have hhit : hits m e p (below + 1) = true :=
      hits_of_isInside ((isInside_self hm e).between h hceil.le (mul_le_mul_of_nonneg_right hc hpos.le))
    rw [hhit]
    split <;> simp_all
  · have hc : (c : ℚ) ≤ below := by exact_mod_cast hge
    have hhit : hits m e p below = true :=
      hits_of_isInside (h.between (isInside_self hm e) (mul_le_mul_of_nonneg_right hc hpos.le) (not_lt.mp hfloor))
    rw [hhit]
    split <;> simp_all

/-! ## The first grid -/

theorem digitCount_bounds (hn : 0 < n) : 10 ^ (digitCount n - 1) ≤ n ∧ n < 10 ^ digitCount n := by
  have hpos : 0 < digitCount n := List.length_pos_of_ne_nil Nat.toDigits_ne_nil
  constructor
  · rcases Nat.eq_zero_or_pos (digitCount n - 1) with hone | hmore
    · rw [hone]
      exact hn
    · refine Nat.le_of_not_lt fun hlt => ?_
      have hfewer : digitCount n ≤ digitCount n - 1 := (Nat.length_toDigits_le_iff (by decide) hmore).mpr hlt
      omega
  · exact (Nat.length_toDigits_le_iff (by decide) hpos).mp le_rfl

theorem ten_zpow_pos (p : ℤ) : (0 : ℚ) < 10 ^ p := zpow_pos (by norm_num) p

theorem le_ten_zpow_iff {num den : ℕ} (p : ℤ) :
    den * (powerRatio 10 p).1 ≤ num * (powerRatio 10 p).2 ↔ (10 : ℚ) ^ p * den ≤ num := by
  have hten := cast_powerRatio (b := 10) (by decide) p
  have hpos : (0 : ℚ) < (powerRatio 10 p).2 := by
    exact_mod_cast (Nat.pow_pos (by decide) : 0 < 10 ^ (-p).toNat)
  rw [← Nat.cast_le (α := ℚ), Nat.cast_mul, Nat.cast_mul, hten, mul_comm (num : ℚ), mul_left_comm,
    mul_le_mul_iff_right₀ hpos, mul_comm]
  norm_num

/-- The first digit of a quotient has the leading power. -/
theorem leadingPower_spec {num den : ℕ} (hnum : 0 < num) (hden : 0 < den) :
    (10 : ℚ) ^ leadingPower num den * den ≤ num ∧ (num : ℚ) < 10 ^ (leadingPower num den + 1) * den := by
  obtain ⟨hnumlow, hnumhigh⟩ := digitCount_bounds hnum
  obtain ⟨hdenlow, hdenhigh⟩ := digitCount_bounds hden
  have hnumpos : 0 < digitCount num := List.length_pos_of_ne_nil Nat.toDigits_ne_nil
  have hdenpos : 0 < digitCount den := List.length_pos_of_ne_nil Nat.toDigits_ne_nil
  have hnumlow : (10 : ℚ) ^ ((digitCount num : ℤ) - 1) ≤ num := by
    rw [← Nat.cast_pred hnumpos, zpow_natCast]
    exact_mod_cast hnumlow
  have hnumhigh : (num : ℚ) < 10 ^ (digitCount num : ℤ) := by
    rw [zpow_natCast]
    exact_mod_cast hnumhigh
  have hdenlow : (10 : ℚ) ^ ((digitCount den : ℤ) - 1) ≤ den := by
    rw [← Nat.cast_pred hdenpos, zpow_natCast]
    exact_mod_cast hdenlow
  have hdenhigh : (den : ℚ) < 10 ^ (digitCount den : ℤ) := by
    rw [zpow_natCast]
    exact_mod_cast hdenhigh
  have hten : (10 : ℚ) ≠ 0 := by norm_num
  unfold leadingPower
  dsimp only
  simp only [le_ten_zpow_iff]
  show (10 : ℚ) ^ (if (10 : ℚ) ^ ((digitCount num : ℤ) - digitCount den) * den ≤ num then _ else _) * _ ≤ _ ∧
    _ < (10 : ℚ) ^ ((if (10 : ℚ) ^ ((digitCount num : ℤ) - digitCount den) * den ≤ num then _ else _) + 1) * _
  split
  next hle =>
    refine ⟨hle, hnumhigh.trans_le ?_⟩
    calc (10 : ℚ) ^ (digitCount num : ℤ)
        = 10 ^ ((digitCount num : ℤ) - digitCount den + 1) * 10 ^ ((digitCount den : ℤ) - 1) := by
          rw [← zpow_add₀ hten]
          congr 1
          omega
      _ ≤ (10 : ℚ) ^ ((digitCount num : ℤ) - digitCount den + 1) * den :=
          mul_le_mul_of_nonneg_left hdenlow (ten_zpow_pos _).le
  next hgt =>
    refine ⟨le_trans ?_ hnumlow, ?_⟩
    · calc (10 : ℚ) ^ ((digitCount num : ℤ) - digitCount den - 1) * den
          ≤ 10 ^ ((digitCount num : ℤ) - digitCount den - 1) * 10 ^ (digitCount den : ℤ) :=
            mul_le_mul_of_nonneg_left hdenhigh.le (ten_zpow_pos _).le
        _ = 10 ^ ((digitCount num : ℤ) - 1) := by
          rw [← zpow_add₀ hten]
          congr 1
          omega
    · rw [sub_add_cancel]
      exact not_le.mp hgt

/-- Trimming drops zeros only. -/
theorem trimmed_spec (d : Digits) :
    ∃ j : ℕ, d.trimmed.digits * 10 ^ j = d.digits ∧ d.trimmed.exponent = d.exponent + j := by
  have hsplit := List.takeWhile_append_dropWhile (p := (· == '0')) (l := (Nat.toDigits 10 d.digits).reverse)
  have hzeros : (Nat.toDigits 10 d.digits).reverse.takeWhile (· == '0')
      = List.replicate ((Nat.toDigits 10 d.digits).reverse.takeWhile (· == '0')).length '0' :=
    List.eq_replicate_of_mem fun c hc => beq_iff_eq.mp (List.mem_takeWhile_imp (p := (· == '0')) hc)
  unfold Digits.trimmed digitCount
  dsimp only
  rw [hzeros] at hsplit
  generalize ((Nat.toDigits 10 d.digits).reverse.takeWhile (· == '0')).length = j at hsplit
  generalize (Nat.toDigits 10 d.digits).reverse.dropWhile (· == '0') = kept at hsplit ⊢
  have hdigits : Nat.toDigits 10 d.digits = kept.reverse ++ List.replicate j '0' := by
    rw [← List.reverse_reverse (Nat.toDigits 10 d.digits), ← hsplit, List.reverse_append, List.reverse_replicate]
  have hvalue : d.digits = 10 ^ j * Nat.ofDigitChars 10 kept.reverse 0 := by
    rw [← Nat.ofDigitChars_ten_toDigits (n := d.digits), hdigits, Nat.ofDigitChars_append,
      Nat.ofDigitChars_replicate_zero]
  have hlength : (Nat.toDigits 10 d.digits).length = kept.length + j := by
    rw [hdigits, List.length_append, List.length_reverse, List.length_replicate]
  refine ⟨j, ?_, by omega⟩
  rw [hlength, Nat.add_sub_cancel_left]
  exact Nat.div_mul_cancel ⟨_, hvalue⟩

/-! ## The search -/

/-- The power of ten of the first digit of a number. -/
def topPower (m : ℕ) (e : ℤ) : ℤ := leadingPower (m * (powerRatio 2 e).1) (powerRatio 2 e).2

theorem topPower_spec (hm : 0 < m) (e : ℤ) :
    (10 : ℚ) ^ topPower m e ≤ m * 2 ^ e ∧ (m : ℚ) * 2 ^ e < 10 ^ (topPower m e + 1) := by
  have htwo := cast_powerRatio two_ne_zero e
  have hnum : 0 < m * (powerRatio 2 e).1 := Nat.mul_pos hm (Nat.pow_pos (by decide))
  have hden : 0 < (powerRatio 2 e).2 := Nat.pow_pos (by decide)
  obtain ⟨hlow, hhigh⟩ := leadingPower_spec hnum hden
  have hpos : (0 : ℚ) < (powerRatio 2 e).2 := by exact_mod_cast hden
  have hvalue : ((m * (powerRatio 2 e).1 : ℕ) : ℚ) = m * 2 ^ e * (powerRatio 2 e).2 := by
    push_cast at htwo ⊢
    rw [htwo]
    ring
  rw [hvalue] at hlow hhigh
  exact ⟨le_of_mul_le_mul_right hlow hpos, lt_of_mul_lt_mul_right hhigh hpos.le⟩

theorem shortest_eq (m : ℕ) (e : ℤ) :
    shortest m e = (((List.range 17).findSome? fun n => (gridHit? m e (topPower m e - Int.ofNat n)).map fun c =>
      ({ digits := c, exponent := topPower m e - Int.ofNat n } : Digits)).getD
        { digits := m * (powerRatio 2 e).1, exponent := 0 }).trimmed := rfl

/-- If some grid of at most seventeen digits has a multiple inside, the first one that has is no finer. -/
theorem exists_hit (hm : 0 < m) {k : ℕ} (hk : k < 17) (h : IsInside m e (c * 10 ^ (topPower m e - k))) :
    ∃ n c', n ≤ k ∧ gridHit? m e (topPower m e - n) = some c' ∧
      shortest m e = (⟨c', topPower m e - n⟩ : Digits).trimmed := by
  have hfound : ((List.range 17).findSome? fun n => (gridHit? m e (topPower m e - Int.ofNat n)).map fun c' =>
      ({ digits := c', exponent := topPower m e - Int.ofNat n } : Digits)).isSome = true := by
    rw [List.findSome?_isSome_iff]
    refine ⟨k, List.mem_range.mpr hk, ?_⟩
    rw [Option.isSome_map]
    exact Option.isSome_iff_ne_none.mpr (gridHit?_ne_none hm h)
  obtain ⟨d, hd⟩ := Option.isSome_iff_exists.mp hfound
  obtain ⟨before, n, after, hrange, hhit, hnone⟩ := List.findSome?_eq_some_iff.mp hd
  obtain ⟨c', hc', rfl⟩ := Option.map_eq_some_iff.mp hhit
  refine ⟨n, c', Nat.le_of_not_lt fun hlt => ?_, hc', ?_⟩
  · -- the grids before the first hit are those of fewer digits
    have hn : (List.range 17)[before.length]? = some n := by
      rw [hrange, List.getElem?_append_right le_rfl, Nat.sub_self, List.getElem?_cons_zero]
    obtain ⟨_, hvalue⟩ := List.getElem?_eq_some_iff.mp hn
    obtain rfl : before.length = n := (List.getElem_range _).symm.trans hvalue
    have hmem : k ∈ before := by
      refine List.mem_of_getElem? (i := k) ?_
      rw [← List.getElem?_append_left hlt, ← hrange, List.getElem?_range hk]
    exact gridHit?_ne_none hm h (Option.map_eq_none_iff.mp (hnone k hmem))
  · rw [shortest_eq, hd, Option.getD_some]
    rfl

/-- The digits of a number round to it. They are not more than a multiple inside needs. -/
theorem shortest_spec (hm : 0 < m) {k : ℕ} (hk : k < 17) (h : IsInside m e (c * 10 ^ (topPower m e - k))) :
    IsWithin m e ((shortest m e).digits * 10 ^ (shortest m e).exponent) ∧ (shortest m e).digits ≤ 10 ^ (k + 1) ∧
      topPower m e - k ≤ (shortest m e).exponent := by
  obtain ⟨n, c', hn, hhit, hshortest⟩ := exists_hit hm hk h
  obtain ⟨j, hdigits, hexponent⟩ := trimmed_spec ⟨c', topPower m e - n⟩
  obtain ⟨hwithin, hnext⟩ := isWithin_of_gridHit? hhit
  obtain ⟨-, htop⟩ := topPower_spec hm e
  rw [hshortest]
  generalize (⟨c', topPower m e - n⟩ : Digits).trimmed = d at hdigits hexponent
  dsimp only at hdigits hexponent
  have hvalue : (c' : ℚ) * 10 ^ (topPower m e - n) = d.digits * 10 ^ d.exponent := by
    rw [hexponent, zpow_add₀ (by norm_num), ← hdigits]
    push_cast
    rw [zpow_natCast]
    ring
  have hcount : c' ≤ 10 ^ (n + 1) := by
    have hstep := ten_zpow_pos (topPower m e - n)
    have hpower : (10 : ℚ) ^ (topPower m e + 1) = 10 ^ (n + 1) * 10 ^ (topPower m e - n) := by
      rw [← zpow_natCast, ← zpow_add₀ (by norm_num)]
      congr 1
      omega
    rw [hpower] at htop
    have hless : (c' : ℚ) < 10 ^ (n + 1) + 1 := by
      refine lt_of_mul_lt_mul_right ?_ hstep.le
      linarith
    have hless : c' < 10 ^ (n + 1) + 1 := by exact_mod_cast hless
    omega
  refine ⟨hvalue ▸ hwithin, ?_, by omega⟩
  calc d.digits ≤ d.digits * 10 ^ j := Nat.le_mul_of_pos_right _ (Nat.pow_pos (by decide))
    _ = c' := hdigits
    _ ≤ 10 ^ (n + 1) := hcount
    _ ≤ 10 ^ (k + 1) := Nat.pow_le_pow_right (by decide) (by omega)

end VisualEncoding.Decimal
