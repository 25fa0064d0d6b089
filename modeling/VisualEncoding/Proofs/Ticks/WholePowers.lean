import VisualEncoding.Proofs.Scalar.Bases
import VisualEncoding.Proofs.Ticks.Outward
import VisualEncoding.Ticks.Log

/-!
# Whole powers at the ends

Nicing a span on a log scale replaces its ends by whole powers of the base: one by the power whose logarithm is the
next whole number below, the other by the one above. Whole powers stay, so that what is niced is its own result.

> `niceLog_settles`: in exact arithmetic the ends are whole powers on the side of the span and stay under nicing. The
> result reaches as far as the span, in its direction, if the base is above one.

With a base below one logarithms fall while the numbers rise, and the ends are moved to the power on the wrong side: the
result reaches as far only if the ends were whole powers before (`niceLog_inward`).
-/

namespace VisualEncoding.Ticks

open Extended (finite)

variable {base x y t : ℝ} {reflected : Bool}

/-! ## The whole powers beside a number -/

/-- A whole power of a base, negated on the side of the negative numbers. -/
def IsPowerOf (base : ℝ) (reflected : Bool) (t : ℝ) : Prop :=
  ∃ k : ℤ, t = if reflected then -base ^ k else base ^ k

/-- The power whose logarithm is the greatest whole number that is not above. -/
noncomputable def powerBelow (base : ℝ) (reflected : Bool) (x : ℝ) : ℝ :=
  sidePow base reflected ⌊sideLog base reflected x⌋

/-- The power whose logarithm is the least whole number that is not below. -/
noncomputable def powerAbove (base : ℝ) (reflected : Bool) (x : ℝ) : ℝ :=
  sidePow base reflected ⌈sideLog base reflected x⌉

theorem isPowerOf_sidePow (base : ℝ) (reflected : Bool) (k : ℤ) :
    IsPowerOf base reflected (sidePow base reflected k) := by
  rw [sidePow_intCast]
  cases reflected with
  | false => exact ⟨k, rfl⟩
  | true => exact ⟨-k, rfl⟩

/-- Whole powers have whole logarithms. -/
theorem IsPowerOf.exists_sidePow (h : IsPowerOf base reflected t) : ∃ k : ℤ, t = sidePow base reflected k := by
  obtain ⟨k, rfl⟩ := h
  cases reflected with
  | false => exact ⟨k, (sidePow_intCast base false k).symm⟩
  | true =>
    refine ⟨-k, ?_⟩
    rw [sidePow_intCast, neg_neg]
    rfl

/-- A whole power is the one beside itself. -/
theorem powers_of_isPowerOf (hpos : 0 < base) (hone : base ≠ 1) (h : IsPowerOf base reflected t) :
    powerBelow base reflected t = t ∧ powerAbove base reflected t = t := by
  obtain ⟨k, rfl⟩ := h.exists_sidePow
  unfold powerBelow powerAbove
  rw [sideLog_sidePow hpos hone, Int.floor_intCast, Int.ceil_intCast]
  exact ⟨rfl, rfl⟩

/-- With a base above one the powers lie to the sides that they are named for, -/
theorem powers_of_one_lt (hbase : 1 < base) (hx : OnSide reflected x) :
    powerBelow base reflected x ≤ x ∧ x ≤ powerAbove base reflected x := by
  have hback := sidePow_sideLog (by linarith) hbase.ne' hx
  have hmono := (sidePow_strictMono hbase reflected).monotone
  constructor
  · exact (hmono (Int.floor_le _)).trans_eq hback
  · exact hback.symm.trans_le (hmono (Int.le_ceil _))

/-- with a base below one to the other sides. -/
theorem powers_of_lt_one (hpos : 0 < base) (hone : base < 1) (hx : OnSide reflected x) :
    powerAbove base reflected x ≤ x ∧ x ≤ powerBelow base reflected x := by
  have hback := sidePow_sideLog hpos hone.ne hx
  have hanti := (sidePow_strictAnti hpos hone reflected).antitone
  constructor
  · exact (hanti (Int.le_ceil _)).trans_eq hback
  · exact hback.symm.trans_le (hanti (Int.floor_le _))

/-! ## Nicing -/

/-- Each end of a span is moved to the power beside it. -/
theorem niceLog_eq (hpos : 0 < base) (hone : base ≠ 1) (hx : OnSide reflected x) (hy : OnSide reflected y) :
    niceLog (finite x) (finite y) (finite base) =
      if y < x then (finite (powerAbove base reflected x), finite (powerBelow base reflected y))
      else (finite (powerBelow base reflected x), finite (powerAbove base reflected y)) := by
  have hside : decide (Scalar.least (finite x) (finite y) < 0) = reflected := by
    rw [Extended.least_finite, Extended.zero_eq, ← (hx.min hy).decide_lt]
    exact decide_eq_decide.mpr Extended.finite_lt
  unfold niceLog powerBelow powerAbove
  simp only [hside, Extended.reflectedLog_finite hpos hone hx, Extended.reflectedLog_finite hpos hone hy,
    Extended.floor_finite, Extended.ceil_finite, Extended.reflectedExp_finite hpos, Extended.finite_lt]

/-- Ends that are whole powers stay. -/
theorem niceLog_of_isPowerOf (hpos : 0 < base) (hone : base ≠ 1) (hx : IsPowerOf base reflected x)
    (hy : IsPowerOf base reflected y) : niceLog (finite x) (finite y) (finite base) = (finite x, finite y) := by
  have honSide : ∀ {t}, IsPowerOf base reflected t → OnSide reflected t := by
    intro t ht
    obtain ⟨k, rfl⟩ := ht.exists_sidePow
    exact sidePow_onSide hpos reflected k
  obtain ⟨hbelow, habove⟩ := powers_of_isPowerOf hpos hone hx
  obtain ⟨hbelow', habove'⟩ := powers_of_isPowerOf hpos hone hy
  rw [niceLog_eq hpos hone (honSide hx) (honSide hy), hbelow, habove, hbelow', habove', ite_self]

/-- A span whose ends were not moved outward but inward reaches as far as before only if they were not moved at all. -/
theorem widens_iff_of_inward {x' y' : ℝ} (hup : x ≤ y → x ≤ x' ∧ y' ≤ y) (hdown : y < x → x' ≤ x ∧ y ≤ y') :
    Widens x y x' y' ↔ x = y ∨ x' = x ∧ y' = y := by
  constructor
  · rintro (⟨hxy, hx, hy⟩ | ⟨hyx, hy, hx⟩)
    · obtain ⟨hx', hy'⟩ := hup hxy
      exact .inr ⟨hx.antisymm hx', hy'.antisymm hy⟩
    · rcases hyx.eq_or_lt with heq | hlt
      · exact .inl heq.symm
      · obtain ⟨hx', hy'⟩ := hdown hlt
        exact .inr ⟨hx'.antisymm hx, hy.antisymm hy'⟩
  · rintro (rfl | ⟨rfl, rfl⟩)
    · obtain ⟨hx, hy⟩ := hup le_rfl
      exact .inr ⟨le_rfl, hy, hx⟩
    · exact Widens.refl _ _

/-- **Nicing a log span leaves whole powers at its ends.** Let the base be positive and not one, and let the ends of
the span have one sign, in exact arithmetic. The ends of the result are whole powers of the base, negated if the span
is negative, and stay when they are niced again. The result reaches as far as the span, in its direction, if and only
if the base is above one or the ends did not have to be moved (or are one end): a base below one moves the ends of a
span inward. -/
theorem niceLog_settles (hpos : 0 < base) (hone : base ≠ 1) (hside : 0 < x ∧ 0 < y ∨ x < 0 ∧ y < 0) :
    ∃ x' y', niceLog (finite x) (finite y) (finite base) = (finite x', finite y') ∧
      IsPowerOf base (decide (x < 0)) x' ∧ IsPowerOf base (decide (x < 0)) y' ∧
      niceLog (finite x') (finite y') (finite base) = (finite x', finite y') ∧
      (Widens x y x' y' ↔ 1 < base ∨ x = y ∨ x' = x ∧ y' = y) ∧
      (base < 1 → (x ≤ y → x ≤ x' ∧ y' ≤ y) ∧ (y < x → x' ≤ x ∧ y ≤ y')) := by
  obtain ⟨hx, hy⟩ := onSide_of_sign hside
  generalize decide (x < 0) = reflected at hx hy ⊢
  have hnice := niceLog_eq hpos hone hx hy
  have hpower : ∀ t, IsPowerOf base reflected (powerBelow base reflected t) ∧
      IsPowerOf base reflected (powerAbove base reflected t) :=
    fun t => ⟨isPowerOf_sidePow base reflected _, isPowerOf_sidePow base reflected _⟩
  by_cases hyx : y < x
  · rw [if_pos hyx] at hnice
    refine ⟨_, _, hnice, (hpower x).2, (hpower y).1, niceLog_of_isPowerOf hpos hone (hpower x).2 (hpower y).1, ?_⟩
    rcases hone.lt_or_gt with hlt | hgt
    · have hinward : (x ≤ y → x ≤ powerAbove base reflected x ∧ powerBelow base reflected y ≤ y) ∧
          (y < x → powerAbove base reflected x ≤ x ∧ y ≤ powerBelow base reflected y) :=
        ⟨fun hle => absurd hyx hle.not_gt,
          fun _ => ⟨(powers_of_lt_one hpos hlt hx).1, (powers_of_lt_one hpos hlt hy).2⟩⟩
      rw [or_iff_right hlt.not_gt]
      exact ⟨widens_iff_of_inward hinward.1 hinward.2, fun _ => hinward⟩
    · have hw : Widens x y (powerAbove base reflected x) (powerBelow base reflected y) :=
        .inr ⟨hyx.le, (powers_of_one_lt hgt hy).1, (powers_of_one_lt hgt hx).2⟩
      exact ⟨iff_of_true hw (.inl hgt), fun hlt => absurd hgt hlt.not_gt⟩
  · rw [if_neg hyx] at hnice
    have hxy := not_lt.mp hyx
    refine ⟨_, _, hnice, (hpower x).1, (hpower y).2, niceLog_of_isPowerOf hpos hone (hpower x).1 (hpower y).2, ?_⟩
    rcases hone.lt_or_gt with hlt | hgt
    · have hinward : (x ≤ y → x ≤ powerBelow base reflected x ∧ powerAbove base reflected y ≤ y) ∧
          (y < x → powerBelow base reflected x ≤ x ∧ y ≤ powerAbove base reflected y) :=
        ⟨fun _ => ⟨(powers_of_lt_one hpos hlt hx).2, (powers_of_lt_one hpos hlt hy).1⟩, fun hlt => absurd hlt hyx⟩
      rw [or_iff_right hlt.not_gt]
      exact ⟨widens_iff_of_inward hinward.1 hinward.2, fun _ => hinward⟩
    · have hw : Widens x y (powerBelow base reflected x) (powerAbove base reflected y) :=
        .inl ⟨hxy, (powers_of_one_lt hgt hx).1, (powers_of_one_lt hgt hy).2⟩
      exact ⟨iff_of_true hw (.inl hgt), fun hlt => absurd hgt hlt.not_gt⟩

/-- A negative span, given from its upper end, is niced to whole powers of a base that is not whole. -/
theorem niceLog_settles_negative :
    (0 : ℝ) < 5 / 2 ∧ (5 / 2 : ℝ) ≠ 1 ∧ (-2 : ℝ) < 0 ∧ (-80 : ℝ) < 0 ∧
      ∃ x' y', niceLog (finite (-2)) (finite (-80)) (finite (5 / 2)) = (finite x', finite y') ∧
        y' ≤ -80 ∧ -2 ≤ x' ∧ niceLog (finite x') (finite y') (finite (5 / 2)) = (finite x', finite y') := by
  have hpos : (0 : ℝ) < 5 / 2 := by norm_num
  have hone : (5 / 2 : ℝ) ≠ 1 := by norm_num
  have hx : (-2 : ℝ) < 0 := by norm_num
  have hy : (-80 : ℝ) < 0 := by norm_num
  obtain ⟨x', y', hnice, -, -, hagain, hwidens, -⟩ := niceLog_settles hpos hone (.inr ⟨hx, hy⟩)
  refine ⟨hpos, hone, hx, hy, x', y', hnice, ?_⟩
  rcases hwidens.mpr (.inl (by norm_num)) with ⟨hle, -⟩ | ⟨-, hy', hx'⟩
  · norm_num at hle
  · exact ⟨hy', hx', hagain⟩

/-- **Nicing with a base below one shrinks a span.** To the base one half the span from 3 to 5 becomes the single
number 4. -/
theorem niceLog_inward :
    niceLog (finite 3) (finite 5) (finite (1 / 2)) = (finite 4, finite 4) ∧ ¬ Widens 3 5 4 4 := by
  have hpos : (0 : ℝ) < 1 / 2 := by norm_num
  have hlt : (1 / 2 : ℝ) < 1 := by norm_num
  have htwo : ((1 / 2 : ℝ)) ^ (-2 : ℝ) = 4 := by
    rw [show (-2 : ℝ) = ((-2 : ℤ) : ℝ) by norm_num, Real.rpow_intCast]
    norm_num
  have hfloor : ⌊Real.logb (1 / 2) 3⌋ = -2 := by
    rw [Int.floor_eq_iff]
    constructor
    · rw [Real.le_logb_iff_rpow_le_of_base_lt_one hpos hlt (by norm_num)]
      push_cast
      rw [htwo]
      norm_num
    · rw [Real.logb_lt_iff_lt_rpow_of_base_lt_one hpos hlt (by norm_num)]
      norm_num
  have hceil : ⌈Real.logb (1 / 2) 5⌉ = -2 := by
    rw [Int.ceil_eq_iff]
    constructor
    · rw [Real.lt_logb_iff_rpow_lt_of_base_lt_one hpos hlt (by norm_num)]
      norm_num
    · rw [Real.logb_le_iff_le_rpow_of_base_lt_one hpos hlt (by norm_num)]
      push_cast
      rw [htwo]
      norm_num
  have hpower : sidePow (1 / 2) false (-2 : ℤ) = 4 := by
    rw [sidePow_intCast]
    norm_num
  have hlow : OnSide false 3 := by norm_num [OnSide]
  have hhigh : OnSide false 5 := by norm_num [OnSide]
  constructor
  · rw [niceLog_eq hpos hlt.ne hlow hhigh, if_neg (by norm_num)]
    unfold powerBelow powerAbove
    show (finite (sidePow (1 / 2) false ⌊Real.logb (1 / 2) 3⌋), finite (sidePow (1 / 2) false ⌈Real.logb (1 / 2) 5⌉)) = _
    rw [hfloor, hceil, hpower]
  · rintro (⟨-, hle, -⟩ | ⟨hle, -⟩)
    · norm_num at hle
    · norm_num at hle

end VisualEncoding.Ticks
