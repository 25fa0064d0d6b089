import VisualEncoding.Proofs.Scalar.Bases
import VisualEncoding.Scale.Continuous

/-!
# Transforms of a domain

In exact arithmetic a continuous scale measures the numbers that its transform accepts by real numbers
(`Continuous.forward_finite`): as they are, by their logarithm or by a signed power. Every real number is the measure
of exactly one number, which the scale goes back to (`Continuous.backward_finite`, `Transform.numberAt_measure`,
`Transform.measure_numberAt`).

A transform keeps the order of the numbers, or, with a base below one, turns it round (`Continuous.forward_order`). That
includes zero and the infinities where they have a transform, which is infinite.
-/

namespace VisualEncoding

open Extended (finite infinite)

/-! ## Signed powers -/

/-- A power that keeps the sign of its base. -/
noncomputable def signedRpow (x q : ℝ) : ℝ := if x < 0 then -(-x) ^ q else x ^ q

variable {x y q b d : ℝ}

theorem signedRpow_strictMono (hq : 0 < q) : StrictMono fun x => signedRpow x q := by
  intro x y h
  show signedRpow x q < signedRpow y q
  unfold signedRpow
  by_cases hy : y < 0
  · rw [if_pos (h.trans hy), if_pos hy]
    exact neg_lt_neg (Real.rpow_lt_rpow (by linarith) (by linarith) hq)
  · rw [if_neg hy]
    by_cases hx : x < 0
    · rw [if_pos hx]
      have hneg : 0 < (-x) ^ q := Real.rpow_pos_of_pos (by linarith) q
      have hnonneg : 0 ≤ y ^ q := Real.rpow_nonneg (not_lt.mp hy) q
      linarith
    · rw [if_neg hx]
      exact Real.rpow_lt_rpow (not_lt.mp hx) h hq

theorem signedRpow_signedRpow (hq : 0 < q) (x : ℝ) : signedRpow (signedRpow x q) (1 / q) = x := by
  rw [one_div]
  unfold signedRpow
  by_cases hx : x < 0
  · have hpos : 0 < (-x) ^ q := Real.rpow_pos_of_pos (by linarith) q
    rw [if_pos hx, if_pos (by linarith), neg_neg, Real.rpow_rpow_inv (by linarith) hq.ne', neg_neg]
  · have hnonneg : 0 ≤ x ^ q := Real.rpow_nonneg (not_lt.mp hx) q
    rw [if_neg hx, if_neg hnonneg.not_gt, Real.rpow_rpow_inv (not_lt.mp hx) hq.ne']

namespace Extended

variable {w : Extended}

theorem signedPow_finite (hq : 0 < q) (x : ℝ) : signedPow (finite x) (finite q) = finite (signedRpow x q) := by
  unfold signedPow signedRpow
  rw [zero_eq]
  by_cases hx : x < 0
  · rw [if_pos (finite_lt.mpr hx), if_pos hx, neg_finite, pow_of_nonneg hq (by linarith), neg_finite]
  · rw [if_neg fun h => hx (finite_lt.mp h), if_neg hx, pow_of_nonneg hq (not_lt.mp hx)]

theorem infinite_true_le (x : ℝ) : infinite true ≤ finite x := ⟨_, rfl, _, rfl, bot_le⟩

theorem le_infinite_false (x : ℝ) : finite x ≤ infinite false := ⟨_, rfl, _, rfl, le_top⟩

theorem not_le_infinite_true (x : ℝ) : ¬ finite x ≤ infinite true := by
  rintro ⟨_, ⟨⟩, _, ⟨⟩, h⟩
  exact (EReal.bot_lt_coe x).not_ge h

theorem not_infinite_false_le (x : ℝ) : ¬ infinite false ≤ finite x := by
  rintro ⟨_, ⟨⟩, _, ⟨⟩, h⟩
  exact (EReal.coe_lt_top x).not_ge h

/-- Infinite numbers have infinite powers. -/
theorem signedPow_infinite (hq : 0 < q) (s : Bool) : signedPow (infinite s) (finite q) = infinite s := by
  have hpow : Scalar.pow (infinite false) (finite q) = infinite false := by
    show (if q = 0 then _ else if q < 0 then _ else infinite (false && _)) = _
    rw [if_neg hq.ne', if_neg hq.not_gt, Bool.false_and]
  unfold signedPow
  rw [zero_eq]
  cases s with
  | false =>
    rw [if_neg fun h => not_infinite_false_le 0 (le_of_lt h)]
    exact hpow
  | true =>
    rw [if_pos ⟨_, rfl, _, rfl, EReal.bot_lt_coe 0⟩]
    exact congrArg Neg.neg hpow

theorem logb_of_neg {x : ℝ} (hx : x < 0) : logb b (finite x) = undefined := if_pos hx

theorem logb_zero : logb b (finite 0) = infinite true := (if_neg (lt_irrefl 0)).trans (if_pos rfl)

/-- The logarithm to a base is the natural one over that of the base. -/
theorem log_eq_div (hb : 0 < b) (w : Extended) :
    Scalar.log (finite b) w = logb (Real.exp 1) w / finite (Real.log b) := by
  have hnatural : ∀ x : ℝ, Real.logb (Real.exp 1) x = Real.log x := by
    intro x
    rw [Real.logb, Real.log_exp, div_one]
  -- a logarithm to one of the bases with functions of their own, all of which are above one
  have habove : ∀ c : ℝ, 1 < c → logb c w = logb (Real.exp 1) w / finite (Real.log c) := by
    intro c hc
    have hlog : 0 < Real.log c := Real.log_pos hc
    have hsign : ∀ s : Bool, infinite s / finite (Real.log c) = infinite s := by
      intro s
      show infinite (s ^^ isNegative (Real.log c)) = infinite s
      rw [isNegative, decide_eq_false hlog.not_gt, Bool.xor_false]
    cases w with
    | finite x =>
      rcases lt_trichotomy x 0 with hneg | rfl | hpos
      · rw [logb_of_neg hneg, logb_of_neg hneg]
        rfl
      · rw [logb_zero, logb_zero, hsign]
      · rw [logb_of_pos hpos, logb_of_pos hpos, finite_div hlog.ne', hnatural]
        rfl
    | infinite s =>
      cases s with
      | false => exact (hsign false).symm
      | true => rfl
    | undefined => rfl
  unfold Scalar.log
  split
  next h =>
    rw [ofNat_eq, finite_beq] at h
    rw [h]
    exact habove _ (by norm_num)
  · split
    next h =>
      rw [ofNat_eq, finite_beq] at h
      rw [h]
      exact habove _ (by norm_num)
    · split
      next h =>
        rw [finite_beq.mp h]
        exact habove _ (Real.one_lt_exp_iff.mpr one_pos)
      · show logb (Real.exp 1) w / logb (Real.exp 1) (finite b) = _
        rw [logb_of_pos hb, hnatural]

/-- The numbers that have a logarithm: the positive ones, zero and the infinite one. -/
theorem log_cases (hb : 0 < b) (hone : b ≠ 1) (hw : Scalar.isNaN (Scalar.log (finite b) w) = false) :
    (∃ x, w = finite x ∧ 0 < x) ∨ (w = finite 0 ∧ Scalar.log (finite b) w = infinite (decide (1 < b))) ∨
      (w = infinite false ∧ Scalar.log (finite b) w = infinite (decide (b < 1))) := by
  rw [log_eq_div hb] at hw ⊢
  have hsign : isNegative (Real.log b) = decide (b < 1) := decide_eq_decide.mpr (Real.log_neg_iff hb)
  have hother : decide (1 < b) = !decide (b < 1) := by
    rcases lt_or_gt_of_ne hone with hlt | hgt
    · rw [decide_eq_true hlt, decide_eq_false hlt.not_gt]
      rfl
    · rw [decide_eq_true hgt, decide_eq_false hgt.not_gt]
      rfl
  cases w with
  | finite x =>
    rcases lt_trichotomy x 0 with hneg | rfl | hpos
    · rw [logb_of_neg hneg] at hw
      nomatch hw
    · refine .inr (.inl ⟨rfl, ?_⟩)
      rw [logb_zero, hother, ← hsign]
      show infinite (true ^^ _) = _
      rw [Bool.true_xor]
    · exact .inl ⟨x, rfl, hpos⟩
  | infinite s =>
    cases s with
    | false =>
      refine .inr (.inr ⟨rfl, ?_⟩)
      show infinite (false ^^ _) = _
      rw [hsign, Bool.false_xor]
    | true => nomatch hw
  | undefined => nomatch hw

/-- Logarithms to a base above one keep the order, -/
theorem log_order_of_one_lt (hb : 1 < b) (hw : Scalar.isNaN (Scalar.log (finite b) w) = false) (hd : 0 < d) :
    (w ≤ finite d → Scalar.log (finite b) w ≤ finite (Real.logb b d)) ∧
      (finite d ≤ w → finite (Real.logb b d) ≤ Scalar.log (finite b) w) := by
  have hpos : 0 < b := by linarith
  rcases log_cases hpos hb.ne' hw with ⟨x, rfl, hx⟩ | ⟨rfl, hlog⟩ | ⟨rfl, hlog⟩
  · rw [log_finite hpos hb.ne' hx, finite_le, finite_le, finite_le, finite_le, Real.logb_le_logb hb hx hd,
      Real.logb_le_logb hb hd hx]
    exact ⟨id, id⟩
  · rw [hlog, decide_eq_true hb]
    exact ⟨fun _ => infinite_true_le _, fun h => absurd (finite_le.mp h) (not_le.mpr hd)⟩
  · rw [hlog, decide_eq_false hb.not_gt]
    exact ⟨fun h => absurd h (not_infinite_false_le d), fun _ => le_infinite_false _⟩

/-- and those to a base below one turn it round. -/
theorem log_order_of_lt_one (hb : 0 < b) (hone : b < 1) (hw : Scalar.isNaN (Scalar.log (finite b) w) = false)
    (hd : 0 < d) :
    (w ≤ finite d → finite (Real.logb b d) ≤ Scalar.log (finite b) w) ∧
      (finite d ≤ w → Scalar.log (finite b) w ≤ finite (Real.logb b d)) := by
  rcases log_cases hb hone.ne hw with ⟨x, rfl, hx⟩ | ⟨rfl, hlog⟩ | ⟨rfl, hlog⟩
  · rw [log_finite hb hone.ne hx, finite_le, finite_le, finite_le, finite_le,
      Real.logb_le_logb_of_base_lt_one hb hone hd hx, Real.logb_le_logb_of_base_lt_one hb hone hx hd]
    exact ⟨id, id⟩
  · rw [hlog, decide_eq_false hone.not_gt]
    exact ⟨fun _ => le_infinite_false _, fun h => absurd (finite_le.mp h) (not_le.mpr hd)⟩
  · rw [hlog, decide_eq_true hone]
    exact ⟨fun h => absurd h (not_infinite_false_le d), fun _ => infinite_true_le _⟩

end Extended

/-! ## Measures -/

namespace Transform

/-- A transform with exact parameters. -/
def exact : Transform ℝ → Transform Extended
  | .identity => .identity
  | .log base => .log (finite base)
  | .pow exponent => .pow (finite exponent)

/-- Bases and exponents that distances can be measured by. -/
def IsProper : Transform ℝ → Prop
  | .identity => True
  | .log base => 0 < base ∧ base ≠ 1
  | .pow exponent => 0 < exponent

/-- The real numbers that have a transform. -/
def Accepts (m : Transform ℝ) (reflected : Bool) (x : ℝ) : Prop :=
  match m with
  | .identity | .pow _ => True
  | .log _ => OnSide reflected x

/-- The transform of a number. -/
noncomputable def measure (m : Transform ℝ) (reflected : Bool) (x : ℝ) : ℝ :=
  match m with
  | .identity => x
  | .log base => sideLog base reflected x
  | .pow exponent => signedRpow x exponent

/-- The number with a transform. -/
noncomputable def numberAt (m : Transform ℝ) (reflected : Bool) (t : ℝ) : ℝ :=
  match m with
  | .identity => t
  | .log base => sidePow base reflected t
  | .pow exponent => signedRpow t (1 / exponent)

variable {m : Transform ℝ} {reflected : Bool} {t : ℝ}

theorem accepts_numberAt (hm : m.IsProper) (reflected : Bool) (t : ℝ) :
    m.Accepts reflected (m.numberAt reflected t) := by
  cases m with
  | identity | pow => trivial
  | log base => exact sidePow_onSide hm.1 reflected t

theorem numberAt_measure (hm : m.IsProper) (hx : m.Accepts reflected x) :
    m.numberAt reflected (m.measure reflected x) = x := by
  cases m with
  | identity => rfl
  | log base => exact sidePow_sideLog hm.1 hm.2 hx
  | pow exponent => exact signedRpow_signedRpow hm x

theorem measure_numberAt (hm : m.IsProper) (reflected : Bool) (t : ℝ) :
    m.measure reflected (m.numberAt reflected t) = t := by
  cases m with
  | identity => rfl
  | log base => exact sideLog_sidePow hm.1 hm.2 reflected t
  | pow exponent =>
    have h := signedRpow_signedRpow (one_div_pos.mpr hm) t
    rwa [one_div_one_div] at h

/-- What lies between numbers that have a transform has one, too. -/
theorem Accepts.of_between {a b : ℝ} (ha : m.Accepts reflected a) (hb : m.Accepts reflected b) (hax : a ≤ x)
    (hxb : x ≤ b) : m.Accepts reflected x := by
  cases m with
  | identity | pow => trivial
  | log base =>
    cases reflected with
    | false => exact lt_of_lt_of_le ha hax
    | true => exact lt_of_lt_of_le hb (neg_le_neg hxb)

/-- A transform keeps the order of the numbers or turns it round. -/
theorem measure_steady (hm : m.IsProper) (reflected : Bool) :
    StrictMonoOn (m.measure reflected) {x | m.Accepts reflected x} ∨
      StrictAntiOn (m.measure reflected) {x | m.Accepts reflected x} := by
  cases m with
  | identity => exact .inl fun _ _ _ _ h => h
  | log base =>
    rcases lt_or_gt_of_ne hm.2 with hlt | hgt
    · exact .inr (sideLog_strictAntiOn hm.1 hlt reflected)
    · exact .inl (sideLog_strictMonoOn hgt reflected)
  | pow exponent => exact .inl fun _ _ _ _ h => signedRpow_strictMono hm h

end Transform

namespace Continuous

variable {s : Continuous Extended} {m : Transform ℝ} {w : Extended}

theorem forward_finite (h : s.transform = m.exact) (hm : m.IsProper) (hx : m.Accepts s.isReflected x) :
    s.forward (finite x) = finite (m.measure s.isReflected x) := by
  unfold forward
  rw [h]
  cases m with
  | identity => rfl
  | log base => exact Extended.reflectedLog_finite hm.1 hm.2 hx
  | pow exponent => exact Extended.signedPow_finite hm x

theorem backward_finite (h : s.transform = m.exact) (hm : m.IsProper) (t : ℝ) :
    s.backward (finite t) = finite (m.numberAt s.isReflected t) := by
  unfold backward
  rw [h]
  cases m with
  | identity => rfl
  | log base => exact Extended.reflectedExp_finite hm.1 s.isReflected t
  | pow exponent =>
    have hne : exponent ≠ 0 := (show 0 < exponent from hm).ne'
    show signedPow (finite t) (1 / finite exponent) = _
    rw [Extended.one_eq, Extended.finite_div hne, Extended.signedPow_finite (one_div_pos.mpr hm)]
    rfl

/-- The transforms of numbers below and above one that is accepted compare with its own in the same way. -/
def Orders (s : Continuous Extended) (m : Transform ℝ) (le : Extended → Extended → Prop) : Prop :=
  ∀ (w : Extended) (d : ℝ), Scalar.isNaN (s.forward w) = false → m.Accepts s.isReflected d →
    (w ≤ finite d → le (s.forward w) (finite (m.measure s.isReflected d))) ∧
      (finite d ≤ w → le (finite (m.measure s.isReflected d)) (s.forward w))

/-- Logarithms are in order on a negative domain if they are on a positive one. -/
theorem orders_log {le : Extended → Extended → Prop} (h : s.transform = .log (finite b))
    (hneg : ∀ {v w}, le v w → le (-w) (-v))
    (hlog : ∀ (w : Extended) (d : ℝ), Scalar.isNaN (Scalar.log (finite b) w) = false → 0 < d →
      (w ≤ finite d → le (Scalar.log (finite b) w) (finite (Real.logb b d))) ∧
        (finite d ≤ w → le (finite (Real.logb b d)) (Scalar.log (finite b) w))) :
    s.Orders (.log b) le := by
  intro w d hw hd
  have hforward : s.forward w = Scalar.reflectedLog (finite b) s.isReflected w := by
    unfold forward
    rw [h]
  rw [hforward] at hw ⊢
  change OnSide s.isReflected d at hd
  show (_ → le _ (finite (sideLog b s.isReflected d))) ∧ (_ → le (finite (sideLog b s.isReflected d)) _)
  generalize s.isReflected = reflected at hw hd
  cases reflected with
  | false => exact hlog w d hw hd
  | true =>
    have hw' : Scalar.isNaN (Scalar.log (finite b) (-w)) = false := by
      cases hcase : Scalar.log (finite b) (-w) with
      | undefined =>
        unfold Scalar.reflectedLog at hw
        rw [if_pos rfl, hcase] at hw
        nomatch hw
      | finite | infinite => rfl
    obtain ⟨hbelow, habove⟩ := hlog (-w) (-d) hw' hd
    exact ⟨fun hle => hneg (habove (Extended.neg_le_neg hle)), fun hle => hneg (hbelow (Extended.neg_le_neg hle))⟩

/-- A transform keeps the order of the numbers or turns it round, where zero or infinite numbers have one, too. -/
theorem forward_order (h : s.transform = m.exact) (hm : m.IsProper) : s.Orders m (· ≤ ·) ∨ s.Orders m (· ≥ ·) := by
  cases m with
  | identity =>
    refine .inl fun w d _ _ => ?_
    have hforward : s.forward w = w := by
      unfold forward
      rw [h]
      rfl
    rw [hforward]
    exact ⟨id, id⟩
  | log base =>
    rcases lt_or_gt_of_ne hm.2 with hlt | hgt
    · exact .inr (orders_log h Extended.neg_le_neg fun w d hw hd => Extended.log_order_of_lt_one hm.1 hlt hw hd)
    · exact .inl (orders_log h Extended.neg_le_neg fun w d hw hd => Extended.log_order_of_one_lt hgt hw hd)
  | pow exponent =>
    refine .inl fun w d hw _ => ?_
    have hpos : 0 < exponent := hm
    have hforward : s.forward w = signedPow w (finite exponent) := by
      unfold forward
      rw [h]
      rfl
    rw [hforward]
    show (_ → _ ≤ finite (signedRpow d exponent)) ∧ (_ → finite (signedRpow d exponent) ≤ _)
    cases w with
    | finite x =>
      have hmono := (signedRpow_strictMono hpos).monotone
      rw [Extended.signedPow_finite hpos]
      simp only [Extended.finite_le]
      exact ⟨fun hle => hmono hle, fun hle => hmono hle⟩
    | infinite sign =>
      rw [Extended.signedPow_infinite hpos]
      cases sign with
      | false =>
        exact ⟨fun hle => absurd hle (Extended.not_infinite_false_le d), fun _ => Extended.le_infinite_false _⟩
      | true =>
        exact ⟨fun _ => Extended.infinite_true_le _, fun hle => absurd hle (Extended.not_le_infinite_true d)⟩
    | undefined =>
      constructor
      · rintro ⟨_, ⟨⟩, _⟩
      · rintro ⟨_, _, _, ⟨⟩, _⟩

end Continuous

end VisualEncoding
