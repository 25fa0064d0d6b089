import VisualEncoding.Proofs.Scalar.Values

/-!
# Rounding to doubles

A double has 53 bits and an exponent of at least -1074 (`IsRepresentable`; beyond the greatest double there are more
such numbers). A result is rounded to the double that is nearest among all of these (`IsRounded`). From that alone it
follows that a representable result is exact and that rounding passes no representable number.

The model of doubles rounds a mantissa with two more bits, which say where between two whole numbers the exact result
lies (`Describes`). So it finds a multiple of a power of two that is at most half that power away, and such a multiple
is nearest if the power is fine enough (`nearest_of_le_half`).

> `isRounded_roundWithAccuracy`: what the model rounds to is nearest to the exact result.
-/

namespace VisualEncoding.Double

open Float.Model
open Float.Model.UnpackedFloat (Sign Accuracy ExtendedMantissa shiftToTargetExponent roundWithAccuracy packComponents
  unpackExponent unpackMantissa unpackSign)

/-! ## Representable numbers -/

/-- A number of at most 53 bits. -/
def IsRepresentable (r : ℚ) : Prop := ∃ m e : ℤ, |m| < 2 ^ 53 ∧ -1074 ≤ e ∧ r = m * 2 ^ e

theorem IsRepresentable.neg {r : ℚ} (h : IsRepresentable r) : IsRepresentable (-r) := by
  obtain ⟨m, e, hm, he, rfl⟩ := h
  exact ⟨-m, e, by rwa [abs_neg], he, by push_cast; ring⟩

theorem isRepresentable_mul_zpow {n e : ℤ} (hn : |n| ≤ 2 ^ 53) (he : -1074 ≤ e) : IsRepresentable (n * 2 ^ e) := by
  rcases hn.lt_or_eq with hlt | heq
  · exact ⟨n, e, hlt, he, rfl⟩
  · -- the power of two itself has a shorter mantissa
    have hsame : (2 : ℚ) ^ 53 * 2 ^ e = 2 ^ 52 * 2 ^ (e + 1) := by
      rw [zpow_add_one₀ two_ne_zero]
      ring
    rcases abs_eq (by decide) |>.mp heq with rfl | rfl
    · exact ⟨2 ^ 52, e + 1, by decide, by omega, by exact_mod_cast hsame⟩
    · exact ⟨-2 ^ 52, e + 1, by decide, by omega, by push_cast; linarith⟩

theorem isRepresentable_intCast {n : ℤ} (h : |n| ≤ 2 ^ 53) : IsRepresentable n := by
  have hunit := isRepresentable_mul_zpow h (by decide : (-1074 : ℤ) ≤ 0)
  rwa [zpow_zero, mul_one] at hunit

/-- A double is what an exact result is rounded to: it is finite, and no representable number is nearer. -/
structure IsRounded (y : Float) (q : ℚ) : Prop where
  isFinite : y.isFinite = true
  nearest : ∀ r, IsRepresentable r → |value y - q| ≤ |r - q|

namespace IsRounded

variable {y : Float} {q r : ℚ}

theorem value_eq (h : IsRounded y q) (hq : IsRepresentable q) : value y = q := by
  have hnear := h.nearest q hq
  rw [sub_self, abs_zero] at hnear
  exact sub_eq_zero.mp (abs_eq_zero.mp (le_antisymm hnear (abs_nonneg _)))

/-- Rounding passes no representable number. -/
theorem value_le (h : IsRounded y q) (hr : IsRepresentable r) (hle : q ≤ r) : value y ≤ r := by
  have hnear := h.nearest r hr
  rw [abs_of_nonneg (sub_nonneg.mpr hle)] at hnear
  linarith [le_abs_self (value y - q)]

theorem le_value (h : IsRounded y q) (hr : IsRepresentable r) (hle : r ≤ q) : r ≤ value y := by
  have hnear := h.nearest r hr
  rw [abs_sub_comm r, abs_of_nonneg (sub_nonneg.mpr hle)] at hnear
  linarith [neg_abs_le (value y - q)]

theorem nonneg (h : IsRounded y q) (hq : 0 ≤ q) : 0 ≤ value y :=
  h.le_value ⟨0, 0, by decide, by decide, by simp⟩ hq

theorem abs_value_le (h : IsRounded y q) {n : ℕ} (hn : n ≤ 2 ^ 53) (hq : |q| ≤ n) : |value y| ≤ n := by
  have hrepresentable : IsRepresentable n := by
    exact_mod_cast isRepresentable_intCast (n := n) (by rw [Nat.abs_cast]; exact_mod_cast hn)
  obtain ⟨hlow, hhigh⟩ := abs_le.mp hq
  exact abs_le.mpr ⟨h.le_value hrepresentable.neg hlow, h.value_le hrepresentable hhigh⟩

end IsRounded

/-! ## Multiples of a power of two -/

theorem two_zpow_pos (e : ℤ) : (0 : ℚ) < 2 ^ e := zpow_pos two_pos e

/-- Of the multiples of a power of two the one that is at most half of it away is the nearest. -/
theorem nearest_multiple {q : ℚ} {k n t : ℤ} (hhalf : |n * 2 ^ t - q| ≤ 2 ^ t / 2) :
    |n * 2 ^ t - q| ≤ |k * 2 ^ t - q| := by
  rcases eq_or_ne k n with rfl | hne
  · exact le_rfl
  -- another multiple is farther than the whole power
  have hone : (1 : ℚ) ≤ |(k : ℚ) - n| := by exact_mod_cast Int.one_le_abs (sub_ne_zero.mpr hne)
  have hapart : (2 : ℚ) ^ t ≤ |(k * 2 ^ t - q) - (n * 2 ^ t - q)| := by
    rw [sub_sub_sub_cancel_right, ← sub_mul, abs_mul, abs_of_pos (two_zpow_pos t)]
    exact le_mul_of_one_le_left (two_zpow_pos t).le hone
  linarith [abs_sub (k * 2 ^ t - q) (n * 2 ^ t - q)]

/-- So it is no farther than a multiple that is smaller. -/
theorem nearest_multiple_of_le {q : ℚ} {c n t : ℤ} (hhalf : |n * 2 ^ t - q| ≤ 2 ^ t / 2) (hle : c * (2 : ℚ) ^ t ≤ |q|) :
    |n * 2 ^ t - q| ≤ |q| - c * 2 ^ t := by
  rcases abs_cases q with ⟨habs, -⟩ | ⟨habs, -⟩
  · have hnear := nearest_multiple (k := c) hhalf
    have hsame : |(c : ℚ) * 2 ^ t - q| = |q| - c * 2 ^ t := by rw [abs_sub_comm, abs_of_nonneg (by linarith), habs]
    rwa [hsame] at hnear
  · have hnear := nearest_multiple (k := -c) hhalf
    have hsame : |((-c : ℤ) : ℚ) * 2 ^ t - q| = |q| - c * 2 ^ t := by
      push_cast
      rw [abs_of_nonneg (by linarith)]
      linarith
    rwa [hsame] at hnear

/-- A multiple of a power of two is nearest among all representable numbers if it is at most half the power away, and
the power is either the least one or leaves 53 bits. -/
theorem nearest_of_le_half {q r : ℚ} {n t : ℤ} (hhalf : |n * 2 ^ t - q| ≤ 2 ^ t / 2)
    (hfine : t = -1074 ∨ 2 ^ 52 * 2 ^ t ≤ |q|) (hr : IsRepresentable r) : |n * 2 ^ t - q| ≤ |r - q| := by
  obtain ⟨m, e, hm, he, rfl⟩ := hr
  rcases le_or_gt t e with hle | hlt
  · -- a multiple of the same power
    have hmultiple : (m : ℚ) * 2 ^ e = (m * 2 ^ (e - t).toNat : ℤ) * 2 ^ t := by
      push_cast
      rw [mul_assoc, ← zpow_natCast, ← zpow_add₀ two_ne_zero, Int.toNat_of_nonneg (by omega), sub_add_cancel]
    rw [hmultiple]
    exact nearest_multiple hhalf
  · -- a smaller number, as is the least that takes 53 bits, which is between the two
    have hleast := hfine.resolve_left (by omega)
    have hsmall : |(m : ℚ) * 2 ^ e| ≤ 2 ^ 52 * 2 ^ t := by
      have hm : |(m : ℚ)| ≤ 2 ^ 53 := by exact_mod_cast hm.le
      have hpow : (2 : ℚ) ^ (e + 1) ≤ 2 ^ t := zpow_le_zpow_right₀ one_le_two (by omega)
      rw [zpow_add_one₀ two_ne_zero] at hpow
      rw [abs_mul, abs_of_pos (two_zpow_pos e)]
      calc |(m : ℚ)| * 2 ^ e ≤ 2 ^ 53 * 2 ^ e := mul_le_mul_of_nonneg_right hm (two_zpow_pos e).le
        _ = 2 ^ 52 * (2 ^ e * 2) := by ring
        _ ≤ 2 ^ 52 * 2 ^ t := by gcongr
    have hbetween : |n * 2 ^ t - q| ≤ |q| - 2 ^ 52 * 2 ^ t := by
      have hcast : (((2 : ℤ) ^ 52 : ℤ) : ℚ) = 2 ^ 52 := by norm_num
      rw [← hcast] at hleast ⊢
      exact nearest_multiple_of_le hhalf hleast
    calc |n * 2 ^ t - q| ≤ |q| - 2 ^ 52 * 2 ^ t := hbetween
      _ ≤ |q| - |(m : ℚ) * 2 ^ e| := by linarith
      _ ≤ |m * 2 ^ e - q| := by
        rw [abs_sub_comm]
        exact abs_sub_abs_le_abs_sub _ _

/-! ## Values with a sign -/

/-- What a sign makes of a magnitude. -/
def signed : Sign → ℚ → ℚ
  | .positive, q => q
  | .negative, q => -q

theorem abs_signed (s : Sign) (q : ℚ) : |signed s q| = |q| := by
  cases s with
  | positive => rfl
  | negative => exact abs_neg q

theorem signed_sub (s : Sign) (q q' : ℚ) : |signed s q - signed s q'| = |q - q'| := by
  cases s with
  | positive => rfl
  | negative =>
    show |-q - -q'| = _
    rw [neg_sub_neg, abs_sub_comm]

theorem valueOf_finite (s : Sign) (m : ℕ) (e : ℤ) (hm : 0 < m) : valueOf (.finite s m e hm) = signed s (m * 2 ^ e) := by
  cases s <;> rfl

/-- Finite doubles are representable. -/
theorem isRepresentable_value (x : Float) : IsRepresentable (value x) := by
  have hzero : IsRepresentable 0 := ⟨0, 0, by decide, by decide, by simp⟩
  unfold value
  cases hunpack : x.toModel.unpack with
  | infinity s | notANumber | zero s => exact hzero
  | finite s m e hm =>
    have hcanonical := isCanonical_of_unpack hunpack
    have hpositive : IsRepresentable (m * 2 ^ e) :=
      ⟨m, e, by rw [Nat.abs_cast]; exact_mod_cast hcanonical.lt, hcanonical.le_exponent, by simp⟩
    rw [valueOf_finite]
    cases s with
    | positive => exact hpositive
    | negative => exact hpositive.neg

/-! ## Rounding in the model -/

/-- The double that an unpacked result is packed into. -/
def ofUnpacked (u : UnpackedFloat) : Float := .ofModel (.pack u)

/-- The two bits after a mantissa say where between it and the next whole number an exact result lies. -/
def Describes : ExtendedMantissa → ℚ → Prop
  | ⟨m, false, false⟩, q => q = m
  | ⟨m, false, true⟩, q => m < q ∧ q < m + 1 / 2
  | ⟨m, true, false⟩, q => q = m + 1 / 2
  | ⟨m, true, true⟩, q => m + 1 / 2 < q ∧ q < m + 1

namespace Describes

variable {em : ExtendedMantissa} {q : ℚ}

theorem bounds (h : Describes em q) : em.mantissa ≤ q ∧ q < em.mantissa + 1 := by
  obtain ⟨m, roundBit, stickyBit⟩ := em
  dsimp only
  cases roundBit <;> cases stickyBit <;> simp only [Describes] at h <;> constructor <;> linarith

/-- A mantissa that is shifted by a bit describes a half. -/
theorem shiftRightOne (h : Describes em q) : Describes em.shiftRightOne (q / 2) := by
  obtain ⟨m, roundBit, stickyBit⟩ := em
  unfold ExtendedMantissa.shiftRightOne
  dsimp only
  obtain ⟨n, rfl | rfl⟩ := Nat.even_or_odd' m
  · rw [Nat.mul_div_cancel_left n two_pos, Nat.mul_mod_right]
    cases roundBit <;> cases stickyBit <;> simp only [Describes] at h <;> push_cast at h
    · show q / 2 = n
      linarith
    all_goals
      show (n : ℚ) < q / 2 ∧ q / 2 < n + 1 / 2
      constructor <;> linarith
  · rw [show (2 * n + 1) / 2 = n by omega, show (2 * n + 1) % 2 = 1 by omega]
    cases roundBit <;> cases stickyBit <;> simp only [Describes] at h <;> push_cast at h
    · show q / 2 = n + 1 / 2
      linarith
    all_goals
      show (n : ℚ) + 1 / 2 < q / 2 ∧ q / 2 < n + 1
      constructor <;> linarith

theorem shiftRight (h : Describes em q) (k : ℕ) : Describes (em >>> k) (q / 2 ^ k) := by
  show Describes (k.repeat ExtendedMantissa.shiftRightOne em) _
  induction k with
  | zero => rwa [pow_zero, div_one]
  | succ k ih =>
    rw [pow_succ, ← div_div]
    exact ih.shiftRightOne

/-- The nearest whole number is at most a half away. -/
theorem abs_rounded_sub_le (h : Describes em q) : |(em.roundedMantissa : ℚ) - q| ≤ 1 / 2 := by
  obtain ⟨m, roundBit, stickyBit⟩ := em
  rw [abs_le]
  cases roundBit <;> cases stickyBit <;> simp only [Describes] at h
  · show -(1 / 2) ≤ (m : ℚ) - q ∧ (m : ℚ) - q ≤ 1 / 2
    constructor <;> linarith
  · show -(1 / 2) ≤ (m : ℚ) - q ∧ (m : ℚ) - q ≤ 1 / 2
    constructor <;> linarith
  · -- a half goes to the even neighbour
    show -(1 / 2) ≤ ((m + m % 2 : ℕ) : ℚ) - q ∧ ((m + m % 2 : ℕ) : ℚ) - q ≤ 1 / 2
    rcases Nat.mod_two_eq_zero_or_one m with hmod | hmod <;> rw [hmod] <;> push_cast <;> constructor <;> linarith
  · show -(1 / 2) ≤ ((m + 1 : ℕ) : ℚ) - q ∧ ((m + 1 : ℕ) : ℚ) - q ≤ 1 / 2
    push_cast
    constructor <;> linarith

theorem exact (m : ℕ) : Describes (.ofMantissaAndAccuracy m .exact) m := rfl

end Describes

variable {s : Sign} {m : ℕ} {e : ℤ} {accuracy : Accuracy} {q : ℚ}

/-- A mantissa is shifted until 53 bits are left, or the least exponent is reached. -/
theorem shiftToTargetExponent_eq (m : ℕ) (e : ℤ) (accuracy : Accuracy) :
    ∃ k : ℕ, shiftToTargetExponent Format.binary64 m e accuracy
        = (ExtendedMantissa.ofMantissaAndAccuracy m accuracy >>> k, e + k) ∧
      max (m.log2 + e - 52) (-1074) ≤ e + k ∧ (k = 0 ∨ e + k = max (m.log2 + e - 52) (-1074)) := by
  refine ⟨(max (m.log2 + e - 52) (-1074) - e).toNat, ?_, by omega, by omega⟩
  have htarget : Format.binary64.targetExponent (totalExponent m e) = max (m.log2 + e - 52) (-1074) := by
    rw [targetExponent_eq]
    unfold totalExponent
    omega
  show (_, _) = _
  rw [htarget]

/-- A mantissa that is rounded needs to be shifted by one bit at most. -/
theorem roundWithAccuracy_eq {em : ExtendedMantissa} {t : ℤ}
    (hfirst : shiftToTargetExponent Format.binary64 m e accuracy = (em, t)) (ht : -1074 ≤ t)
    (hle : em.roundedMantissa ≤ 2 ^ 53) :
    roundWithAccuracy Format.binary64 s m e accuracy =
      if hzero : em.roundedMantissa = 0 then .zero s
      else if em.roundedMantissa < 2 ^ 53 then .finite s em.roundedMantissa t (Nat.pos_of_ne_zero hzero)
      else .finite s (2 ^ 52) (t + 1) (Nat.two_pow_pos _) := by
  obtain ⟨k, hsecond, hlow, hexact⟩ := shiftToTargetExponent_eq em.roundedMantissa t .exact
  unfold roundWithAccuracy
  rw [hfirst]
  dsimp only
  rw [hsecond]
  rcases hle.lt_or_eq with hlt | heq
  · -- up to 53 bits stay
    have hlog : em.roundedMantissa.log2 ≤ 52 := log2_le_of_lt hlt
    obtain rfl : k = 0 := by omega
    simp only [if_pos hlt]
    show (if h : em.roundedMantissa = 0 then _ else UnpackedFloat.finite s em.roundedMantissa (t + 0) _) = _
    simp only [add_zero]
  · have hlog : (2 ^ 53 : ℕ).log2 = 53 := Nat.log2_two_pow
    rw [heq, hlog] at hlow hexact
    obtain rfl : k = 1 := by omega
    simp only [heq]
    rfl

/-- A result of at most 53 bits is read back. -/
theorem value_roundWithAccuracy {em : ExtendedMantissa} {t : ℤ}
    (hfirst : shiftToTargetExponent Format.binary64 m e accuracy = (em, t)) (hlo : -1074 ≤ t)
    (hhi : t ≤ 970 ∨ t = 971 ∧ em.roundedMantissa < 2 ^ 53) (hle : em.roundedMantissa ≤ 2 ^ 53)
    (hnormal : 2 ^ 52 ≤ em.roundedMantissa ∨ t = -1074) :
    (ofUnpacked (roundWithAccuracy Format.binary64 s m e accuracy)).isFinite = true ∧
      value (ofUnpacked (roundWithAccuracy Format.binary64 s m e accuracy)) = signed s (em.roundedMantissa * 2 ^ t) := by
  show (UnpackedFloat.unpack Format.binary64 (UnpackedFloat.pack Format.binary64 _)).isFinite = true ∧
    valueOf (UnpackedFloat.unpack Format.binary64 (UnpackedFloat.pack Format.binary64 _)) = _
  rw [roundWithAccuracy_eq hfirst hlo hle]
  split
  next hzero =>
    rw [hzero, Nat.cast_zero, zero_mul]
    cases s with
    | positive => exact ⟨rfl, rfl⟩
    | negative => exact ⟨rfl, neg_zero.symm⟩
  next hpos =>
    split
    next hlt =>
      have hcanonical : IsCanonical em.roundedMantissa t := ⟨hlt, hlo, by omega, hnormal⟩
      rw [hcanonical.unpack_pack]
      exact ⟨rfl, valueOf_finite _ _ _ _⟩
    next hnot =>
      have hcanonical : IsCanonical (2 ^ 52) (t + 1) := ⟨by decide, by omega, by omega, .inl le_rfl⟩
      have hgreatest : em.roundedMantissa = 2 * 2 ^ 52 := by omega
      rw [hcanonical.unpack_pack, hgreatest]
      refine ⟨rfl, (valueOf_finite _ _ _ _).trans (congrArg (signed s) ?_)⟩
      rw [zpow_add_one₀ two_ne_zero]
      push_cast
      ring

/-- A shifted mantissa leaves 53 bits of the exact result, or fewer at the least exponent. -/
theorem div_two_pow_bounds {k : ℕ} (hbelow : m ≤ q) (habove : q < m + 1) (hbits : 2 ^ 52 ≤ m ∨ e ≤ -1074)
    (hlow : max (m.log2 + e - 52) (-1074) ≤ e + k) (hexact : k = 0 ∨ e + k = max (m.log2 + e - 52) (-1074)) :
    q / 2 ^ k < 2 ^ 53 ∧ (e + k = -1074 ∨ 2 ^ 52 ≤ q / 2 ^ k) := by
  constructor
  · have hlog : m < 2 ^ (m.log2 + 1) := Nat.lt_log2_self
    have hpow : 2 ^ (m.log2 + 1) ≤ 2 ^ (53 + k) := Nat.pow_le_pow_right two_pos (by omega)
    have hsucc : (m : ℚ) + 1 ≤ 2 ^ 53 * 2 ^ k := by
      rw [← pow_add]
      exact_mod_cast hlog.trans_le hpow
    rw [div_lt_iff₀ (by positivity)]
    linarith
  · by_cases hmin : e + k = -1074
    · exact .inl hmin
    have hpow : 2 ^ (52 + k) ≤ m := by
      rcases hexact with rfl | hexact
      · exact hbits.resolve_right (by omega)
      · have hlog : m.log2 = 52 + k := by omega
        have hpos : m ≠ 0 := fun hzero => by
          rw [hzero, Nat.log2_zero] at hlog
          omega
        exact hlog ▸ Nat.log2_self_le hpos
    refine .inr ((le_div_iff₀ (by positivity)).mpr ?_)
    rw [← pow_add]
    exact le_trans (by exact_mod_cast hpow) hbelow

/-- What is rounded to a fine enough multiple of a power of two is rounded to the nearest. -/
theorem isRounded_of_le_half {y : Float} {n t : ℤ} (hfinite : y.isFinite = true)
    (hvalue : value y = signed s (n * 2 ^ t)) (hhalf : |n * 2 ^ t - q| ≤ 2 ^ t / 2)
    (hfine : t = -1074 ∨ 2 ^ 52 * 2 ^ t ≤ |q|) : IsRounded y (signed s q) where
  isFinite := hfinite
  nearest r hr := by
    rw [hvalue, signed_sub]
    cases s with
    | positive => exact nearest_of_le_half hhalf hfine hr
    | negative =>
      have hreflected : |r - signed .negative q| = |-r - q| := by
        show |r - -q| = |-r - q|
        rw [← abs_neg (r - -q)]
        ring_nf
      rw [hreflected]
      exact nearest_of_le_half hhalf hfine hr.neg

/-- The least number that is not rounded to a double any more, but to infinity: half a unit above the greatest double. -/
def overflow : ℚ := (2 ^ 54 - 1) * 2 ^ 970

theorem pow_lt_overflow : (2 : ℚ) ^ 1023 < overflow := by
  unfold overflow
  rw [show 1023 = 53 + 970 from rfl, pow_add]
  exact mul_lt_mul_of_pos_right (by norm_num) (by positivity)

theorem overflow_pos : 0 < overflow := (by positivity : (0 : ℚ) < 2 ^ 1023).trans pow_lt_overflow

/-- No double is beyond. -/
theorem abs_value_lt (x : Float) : |value x| < overflow := by
  unfold value
  cases hunpack : x.toModel.unpack with
  | infinity s | notANumber | zero s => exact abs_zero.trans_lt overflow_pos
  | finite s m e hm =>
    have hcanonical := isCanonical_of_unpack hunpack
    have hm : (m : ℚ) ≤ 2 ^ 53 - 1 := by
      rw [le_sub_iff_add_le]
      exact_mod_cast hcanonical.lt
    have he : (2 : ℚ) ^ e ≤ 2 ^ (971 : ℤ) := zpow_le_zpow_right₀ one_le_two hcanonical.exponent_le
    have hunit : (2 : ℚ) ^ (971 : ℤ) = 2 * 2 ^ 970 := by
      rw [← zpow_natCast, ← zpow_one_add₀ two_ne_zero]
      rfl
    have htwice : ∀ u : ℚ, (2 ^ 53 - 1) * (2 * u) = (2 ^ 54 - 2) * u := fun u => by ring
    rw [valueOf_finite, abs_signed, abs_of_nonneg (by positivity)]
    calc (m : ℚ) * 2 ^ e ≤ (2 ^ 53 - 1) * (2 * 2 ^ 970) := by
          rw [← hunit]
          exact mul_le_mul hm he (two_zpow_pos _).le (by norm_num)
      _ = (2 ^ 54 - 2) * 2 ^ 970 := htwice _
      _ < (2 ^ 54 - 1) * 2 ^ 970 := mul_lt_mul_of_pos_right (by norm_num) (by positivity)

/-- A multiple of a power of two that takes 53 bits is not beyond the greatest double if it is rounded from less than
what overflows. -/
theorem exponent_le_of_lt {n : ℕ} {t : ℤ} (hless : q < overflow) (hfine : t = -1074 ∨ 2 ^ 52 * 2 ^ t ≤ q)
    (hhalf : |n * 2 ^ t - q| ≤ 2 ^ t / 2) : t ≤ 970 ∨ t = 971 ∧ n < 2 ^ 53 := by
  by_cases hsmall : t ≤ 970
  · exact .inl hsmall
  have hle := hfine.resolve_left (by omega)
  have hoverflow : overflow = (2 ^ 54 - 1) * 2 ^ (970 : ℤ) := rfl
  have hunit : (2 : ℚ) ^ (971 : ℤ) = 2 * 2 ^ (970 : ℤ) := by rw [← zpow_one_add₀ two_ne_zero]; rfl
  have hpos := two_zpow_pos 970
  generalize (2 : ℚ) ^ (970 : ℤ) = unit at hoverflow hunit hpos
  have ht : t ≤ 971 := by
    by_contra hnot
    have hpow : (2 : ℚ) ^ (972 : ℤ) ≤ 2 ^ t := zpow_le_zpow_right₀ one_le_two (by omega)
    have hnext : (2 : ℚ) ^ (972 : ℤ) = 2 * 2 ^ (971 : ℤ) := by rw [← zpow_one_add₀ two_ne_zero]; rfl
    rw [hnext, hunit] at hpow
    generalize (2 : ℚ) ^ t = z at hpow hle
    linarith only [hpow, hle, hless, hoverflow, hpos]
  obtain rfl : t = 971 := by omega
  rw [hunit] at hhalf hle
  have hclose : (n : ℚ) < 2 ^ 53 := by
    have hbelow : (n : ℚ) * (2 * unit) < 2 ^ 53 * (2 * unit) := by
      linarith only [(abs_le.mp hhalf).2, hless, hoverflow]
    exact lt_of_mul_lt_mul_right hbelow (by positivity)
  exact .inr ⟨rfl, by exact_mod_cast hclose⟩

/-- **The model of doubles rounds to the nearest**, a negative number as its magnitude. The mantissa has 53 bits or more,
unless its exponent is the least or below. -/
theorem exists_value_roundWithAccuracy (hq : Describes (.ofMantissaAndAccuracy m accuracy) q)
    (hbits : 2 ^ 52 ≤ m ∨ e ≤ -1074) (hless : q * 2 ^ e < overflow) :
    ∃ r, ∀ s, value (ofUnpacked (roundWithAccuracy Format.binary64 s m e accuracy)) = signed s r ∧
      IsRounded (ofUnpacked (roundWithAccuracy Format.binary64 s m e accuracy)) (signed s (q * 2 ^ e)) := by
  obtain ⟨k, hfirst, hlow, hexact⟩ := shiftToTargetExponent_eq m e accuracy
  have hshifted := hq.shiftRight k
  obtain ⟨hbelow, habove⟩ := hq.bounds
  rw [mantissa_ofMantissaAndAccuracy] at hbelow habove
  obtain ⟨hfits, hleast⟩ := div_two_pow_bounds hbelow habove hbits hlow hexact
  generalize ExtendedMantissa.ofMantissaAndAccuracy m accuracy >>> k = em at hfirst hshifted
  have hvalue : q * 2 ^ e = q / 2 ^ k * 2 ^ (e + k) := by
    rw [zpow_add₀ two_ne_zero, zpow_natCast]
    field_simp
  have hfine : e + k = -1074 ∨ 2 ^ 52 * 2 ^ (e + k) ≤ q * 2 ^ e := by
    refine hleast.imp_right fun hle => ?_
    rw [hvalue]
    exact mul_le_mul_of_nonneg_right hle (two_zpow_pos _).le
  -- the rounded mantissa has as many bits
  have hmantissa : em.mantissa < 2 ^ 53 := by exact_mod_cast hshifted.bounds.1.trans_lt hfits
  have hrounded : em.roundedMantissa ≤ em.mantissa + 1 := roundToNearestEven_le _ _
  have hhalf := hshifted.abs_rounded_sub_le
  have hnormal : 2 ^ 52 ≤ em.roundedMantissa ∨ e + k = -1074 := by
    refine hleast.symm.imp_left fun hle => ?_
    have hclose : (2 : ℚ) ^ 52 < em.roundedMantissa + 1 := by linarith [(abs_le.mp hhalf).1]
    have hclose : 2 ^ 52 < em.roundedMantissa + 1 := by exact_mod_cast hclose
    omega
  have hmultiple : |(em.roundedMantissa : ℚ) * 2 ^ (e + k) - q * 2 ^ e| ≤ 2 ^ (e + k) / 2 := by
    rw [hvalue, ← sub_mul, abs_mul, abs_of_pos (two_zpow_pos _)]
    linarith [mul_le_mul_of_nonneg_right hhalf (two_zpow_pos (e + k)).le]
  refine ⟨em.roundedMantissa * 2 ^ (e + k), fun s => ?_⟩
  obtain ⟨hfinite, hresult⟩ := value_roundWithAccuracy (s := s) hfirst (by omega)
    (exponent_le_of_lt hless hfine hmultiple) (by omega) hnormal
  exact ⟨hresult, isRounded_of_le_half (n := em.roundedMantissa) hfinite (by exact_mod_cast hresult)
    (by exact_mod_cast hmultiple) (hfine.imp_right fun hle => hle.trans (le_abs_self _))⟩

theorem isRounded_roundWithAccuracy (hq : Describes (.ofMantissaAndAccuracy m accuracy) q)
    (hbits : 2 ^ 52 ≤ m ∨ e ≤ -1074) (hless : q * 2 ^ e < overflow) :
    IsRounded (ofUnpacked (roundWithAccuracy Format.binary64 s m e accuracy)) (signed s (q * 2 ^ e)) := by
  obtain ⟨_, hrounded⟩ := exists_value_roundWithAccuracy hq hbits hless
  exact (hrounded s).2

end VisualEncoding.Double
