import VisualEncoding.Proofs.Scalar.Rounding

/-!
# Arithmetic of doubles

Sums, differences, products and quotients of finite doubles are rounded once: each is the double nearest to the exact
result (`isRounded_add`, `isRounded_sub`, `isRounded_mul`, `isRounded_div`), as long as that is well below the
greatest double. No other fact about the bits of a result is needed to reason about it.
-/

namespace VisualEncoding.Double

open Float.Model
open Float.Model.UnpackedFloat (Sign Accuracy ExtendedMantissa roundWithAccuracy decreaseExponent divCore
  accuracyOfFraction)

variable {x y : Float} {s s' : Sign} {m m' : ℕ} {e e' : ℤ} {q : ℚ}

theorem isRounded_of_value_eq (hfinite : y.isFinite = true) (hvalue : value y = q) : IsRounded y q where
  isFinite := hfinite
  nearest r _ := by
    rw [hvalue, sub_self, abs_zero]
    exact abs_nonneg _

theorem isRounded_ofUnpacked_zero (s : Sign) : IsRounded (ofUnpacked (.zero s)) 0 := by
  cases s <;> exact isRounded_of_value_eq rfl rfl

/-- A double is packed from its own parts. -/
theorem ofUnpacked_unpack (x : Float) : ofUnpacked x.toModel.unpack = x :=
  Float.ofBits_toBits x

/-- The parts of a finite double: a zero, or a mantissa with an exponent. -/
theorem parts_of_isFinite (hx : x.isFinite = true) :
    (∃ s, x.toModel.unpack = .zero s ∧ value x = 0) ∨
      ∃ s m e hm, x.toModel.unpack = .finite s m e hm ∧ IsCanonical m e ∧ value x = signed s (m * 2 ^ e) := by
  have hfinite : x.toModel.unpack.isFinite = true := hx
  unfold value
  cases hunpack : x.toModel.unpack with
  | infinity s | notANumber =>
    rw [hunpack] at hfinite
    nomatch hfinite
  | zero s => exact .inl ⟨s, rfl, rfl⟩
  | finite s m e hm => exact .inr ⟨s, m, e, hm, rfl, isCanonical_of_unpack hunpack, valueOf_finite _ _ _ _⟩

/-! ## Products and quotients -/

theorem signed_mul (s s' : Sign) (q q' : ℚ) : signed (s * s') (q * q') = signed s q * signed s' q' := by
  cases s <;> cases s'
  · exact (neg_mul_neg _ _).symm
  · exact (neg_mul _ _).symm
  · exact (mul_neg _ _).symm
  · rfl

theorem signed_div (s s' : Sign) (q q' : ℚ) : signed (s / s') (q / q') = signed s q / signed s' q' := by
  cases s <;> cases s'
  · exact (neg_div_neg_eq _ _).symm
  · exact (neg_div _ _).symm
  · exact (div_neg _).symm
  · rfl

theorem isRounded_mul (hx : x.isFinite = true) (hy : y.isFinite = true) (hless : |value x * value y| < overflow) :
    IsRounded (x * y) (value x * value y) := by
  show IsRounded (ofUnpacked (UnpackedFloat.mul Format.binary64 x.toModel.unpack y.toModel.unpack)) _
  rcases parts_of_isFinite hx with ⟨s, hs, hzero⟩ | ⟨s, m, e, hm, hs, hparts, hvalue⟩
  · rw [hs, hzero, zero_mul]
    rcases parts_of_isFinite hy with ⟨s', hs', -⟩ | ⟨s', m', e', hm', hs', -, -⟩ <;> rw [hs'] <;>
      exact isRounded_ofUnpacked_zero _
  · rcases parts_of_isFinite hy with ⟨s', hs', hzero⟩ | ⟨s', m', e', hm', hs', hparts', hvalue'⟩
    · rw [hs, hs', hzero, mul_zero]
      exact isRounded_ofUnpacked_zero _
    · have hproduct : value x * value y = signed (s * s') ((m * m' : ℕ) * 2 ^ (e + e')) := by
        rw [hvalue, hvalue', ← signed_mul, zpow_add₀ two_ne_zero, Nat.cast_mul]
        ring_nf
      rw [hproduct, abs_signed] at hless
      rw [hs, hs', hproduct]
      refine isRounded_roundWithAccuracy (.exact _) ?_ ((le_abs_self _).trans_lt hless)
      rcases hparts.normal with hnormal | hmin
      · exact .inl (hnormal.trans (Nat.le_mul_of_pos_right _ hm'))
      · rcases hparts'.normal with hnormal' | hmin'
        · exact .inl (hnormal'.trans (Nat.le_mul_of_pos_left _ hm))
        · exact .inr (by omega)

/-- The remainder of a division tells where between two whole numbers the quotient lies. -/
theorem describes_div (n : ℕ) (hm : 0 < m) :
    Describes (.ofMantissaAndAccuracy (n / m) (accuracyOfFraction (n % m) m)) ((n : ℚ) / m) := by
  have hpos : (0 : ℚ) < m := by exact_mod_cast hm
  have hless : ((n % m : ℕ) : ℚ) < m := by exact_mod_cast Nat.mod_lt n hm
  have hsplit : (n : ℚ) / m = (n / m : ℕ) + ((n % m : ℕ) : ℚ) / m := by
    rw [div_eq_iff hpos.ne', add_mul, div_mul_cancel₀ _ hpos.ne']
    exact_mod_cast (Nat.div_add_mod' n m).symm
  have hone : ((n % m : ℕ) : ℚ) / m < 1 := (div_lt_one hpos).mpr hless
  rw [hsplit]
  unfold accuracyOfFraction
  split
  next hzero =>
    show _ = _
    rw [hzero, Nat.cast_zero, zero_div, add_zero]
  next hnonzero =>
    have hrest : (0 : ℚ) < ((n % m : ℕ) : ℚ) / m := div_pos (by exact_mod_cast Nat.pos_of_ne_zero hnonzero) hpos
    rcases lt_trichotomy (2 * (n % m)) m with hlt | heq | hgt
    · rw [Nat.compare_eq_lt.mpr hlt]
      have hhalf : ((n % m : ℕ) : ℚ) / m < 1 / 2 := by
        rw [div_lt_div_iff₀ hpos two_pos]
        exact_mod_cast (by omega : n % m * 2 < 1 * m)
      exact ⟨by linarith, by linarith⟩
    · rw [Nat.compare_eq_eq.mpr heq]
      have hhalf : ((n % m : ℕ) : ℚ) / m = 1 / 2 := by
        rw [div_eq_div_iff hpos.ne' two_ne_zero]
        exact_mod_cast (by omega : n % m * 2 = 1 * m)
      show _ = _
      rw [hhalf]
    · rw [Nat.compare_eq_gt.mpr hgt]
      have hhalf : (1 : ℚ) / 2 < ((n % m : ℕ) : ℚ) / m := by
        rw [div_lt_div_iff₀ two_pos hpos]
        exact_mod_cast (by omega : 1 * m < n % m * 2)
      exact ⟨by linarith, by linarith⟩

/-- A dividend is shifted until the quotient has 53 bits, or its exponent is the least. -/
theorem divCore_eq (hm : 0 < m) (hm' : 0 < m') (e e' : ℤ) :
    ∃ k : ℕ, divCore Format.binary64 m e m' e'
        = (m <<< k / m', e - e' - k, accuracyOfFraction (m <<< k % m') m') ∧
      (2 ^ 52 ≤ m <<< k / m' ∨ e - e' - k ≤ -1074) := by
  have htarget : Format.binary64.targetExponent (totalExponent m e - totalExponent m' e')
      = max (m.log2 + e - m'.log2 - e' - 53) (-1074) := by
    rw [targetExponent_eq]
    unfold totalExponent
    omega
  generalize hk : (e - e' - min (e - e') (max (m.log2 + e - m'.log2 - e' - 53) (-1074))).toNat = k
  refine ⟨k, ?_, ?_⟩
  · unfold divCore
    dsimp only
    rw [htarget, hk]
    congr 2
    omega
  · by_cases hmin : e - e' - k ≤ -1074
    · exact .inr hmin
    refine .inl ((Nat.le_div_iff_mul_le hm').mpr ?_)
    have hlog : m'.log2 + 53 ≤ m.log2 + k := by omega
    have hless : m' < 2 ^ (m'.log2 + 1) := Nat.lt_log2_self
    have hle : 2 ^ m.log2 ≤ m := Nat.log2_self_le hm.ne'
    calc 2 ^ 52 * m' ≤ 2 ^ 52 * 2 ^ (m'.log2 + 1) := Nat.mul_le_mul_left _ hless.le
      _ = 2 ^ (m'.log2 + 53) := by rw [← pow_add]; congr 1; omega
      _ ≤ 2 ^ (m.log2 + k) := Nat.pow_le_pow_right two_pos hlog
      _ = 2 ^ m.log2 * 2 ^ k := pow_add _ _ _
      _ ≤ m <<< k := by
        rw [Nat.shiftLeft_eq]
        exact Nat.mul_le_mul_right _ hle

theorem isRounded_div (hx : x.isFinite = true) (hy : y.isFinite = true) (hnonzero : value y ≠ 0)
    (hless : |value x / value y| < overflow) : IsRounded (x / y) (value x / value y) := by
  show IsRounded (ofUnpacked (UnpackedFloat.div Format.binary64 x.toModel.unpack y.toModel.unpack)) _
  rcases parts_of_isFinite hy with ⟨s', -, hzero⟩ | ⟨s', m', e', hm', hs', -, hvalue'⟩
  · exact absurd hzero hnonzero
  rcases parts_of_isFinite hx with ⟨s, hs, hzero⟩ | ⟨s, m, e, hm, hs, -, hvalue⟩
  · rw [hs, hs', hzero, zero_div]
    exact isRounded_ofUnpacked_zero _
  · obtain ⟨k, hcore, hbits⟩ := divCore_eq hm hm' e e'
    have hquotient : value x / value y = signed (s / s') (((m <<< k : ℕ) : ℚ) / m' * 2 ^ (e - e' - k)) := by
      rw [hvalue, hvalue', ← signed_div, Nat.shiftLeft_eq, zpow_sub₀ two_ne_zero, zpow_sub₀ two_ne_zero, zpow_natCast]
      push_cast
      field_simp
    rw [hquotient, abs_signed] at hless
    rw [hs, hs', hquotient]
    unfold UnpackedFloat.div
    dsimp only
    rw [hcore]
    exact isRounded_roundWithAccuracy (describes_div _ hm') hbits ((le_abs_self _).trans_lt hless)

/-! ## Sums and differences -/

/-- A mantissa with few bits is given more of them before it is rounded. -/
theorem exists_value_round (hm : 0 < m) (hless : (m : ℚ) * 2 ^ e < overflow) :
    ∃ r, ∀ s, value (ofUnpacked (UnpackedFloat.round Format.binary64 s m e)) = signed s r ∧
      IsRounded (ofUnpacked (UnpackedFloat.round Format.binary64 s m e)) (signed s (m * 2 ^ e)) := by
  have htarget : Format.binary64.targetExponent (totalExponent m e) = max (m.log2 + e - 52) (-1074) := by
    rw [targetExponent_eq]
    unfold totalExponent
    omega
  have hvalue : ∀ k : ℕ, ((m <<< k : ℕ) : ℚ) * 2 ^ (e - k) = m * 2 ^ e := by
    intro k
    rw [Nat.shiftLeft_eq, zpow_sub₀ two_ne_zero, zpow_natCast]
    push_cast
    field_simp
  unfold UnpackedFloat.round decreaseExponent
  dsimp only
  rw [htarget]
  generalize hk : (e - max (m.log2 + e - 52) (-1074)).toNat = k
  rw [← hvalue k] at hless ⊢
  refine exists_value_roundWithAccuracy (.exact _) ?_ hless
  by_cases hmin : e - k ≤ -1074
  · exact .inr hmin
  refine .inl ?_
  have hle : 2 ^ m.log2 ≤ m := Nat.log2_self_le hm.ne'
  calc 2 ^ 52 ≤ 2 ^ (m.log2 + k) := Nat.pow_le_pow_right two_pos (by omega)
    _ = 2 ^ m.log2 * 2 ^ k := pow_add _ _ _
    _ ≤ m <<< k := by
      rw [Nat.shiftLeft_eq]
      exact Nat.mul_le_mul_right _ hle

/-- An integer is rounded as its magnitude. -/
theorem exists_value_normalize (hm : 0 < m) (s : Sign) (hless : (m : ℚ) * 2 ^ e < overflow) :
    ∃ r, value (ofUnpacked (UnpackedFloat.normalize Format.binary64 m e s)) = r ∧
      value (ofUnpacked (UnpackedFloat.normalize Format.binary64 (-m) e s)) = -r ∧
      IsRounded (ofUnpacked (UnpackedFloat.normalize Format.binary64 m e s)) (m * 2 ^ e) ∧
      IsRounded (ofUnpacked (UnpackedFloat.normalize Format.binary64 (-m) e s)) (-(m * 2 ^ e)) := by
  obtain ⟨r, hr⟩ := exists_value_round hm hless
  obtain ⟨hpositive, hrounded⟩ := hr .positive
  obtain ⟨hnegative, hrounded'⟩ := hr .negative
  have hplus : UnpackedFloat.normalize Format.binary64 m e s = UnpackedFloat.round Format.binary64 .positive m e := by
    unfold UnpackedFloat.normalize
    rw [Int.compare_eq_gt.mpr (by omega)]
    rfl
  have hminus : UnpackedFloat.normalize Format.binary64 (-m) e s = UnpackedFloat.round Format.binary64 .negative m e := by
    unfold UnpackedFloat.normalize
    rw [Int.compare_eq_lt.mpr (by omega)]
    dsimp only
    rw [neg_neg]
    rfl
  rw [hplus, hminus]
  exact ⟨r, hpositive, hnegative, hrounded, hrounded'⟩

theorem isRounded_normalize (n : ℤ) (s : Sign) (hless : |(n : ℚ) * 2 ^ e| < overflow) :
    IsRounded (ofUnpacked (UnpackedFloat.normalize Format.binary64 n e s)) (n * 2 ^ e) := by
  rw [abs_mul, abs_of_pos (two_zpow_pos e)] at hless
  obtain ⟨k, rfl | rfl⟩ := n.eq_nat_or_neg <;> rcases Nat.eq_zero_or_pos k with rfl | hpos
  · rw [Nat.cast_zero, Int.cast_zero, zero_mul]
    exact isRounded_ofUnpacked_zero _
  · rw [Int.cast_natCast, Nat.abs_cast] at hless
    obtain ⟨r, -, -, hrounded, -⟩ := exists_value_normalize hpos s hless
    exact_mod_cast hrounded
  · rw [Nat.cast_zero, neg_zero, Int.cast_zero, zero_mul]
    exact isRounded_ofUnpacked_zero _
  · rw [Int.cast_neg, Int.cast_natCast, abs_neg, Nat.abs_cast] at hless
    obtain ⟨r, -, -, -, hrounded⟩ := exists_value_normalize hpos s hless
    rw [Int.cast_neg, Int.cast_natCast, neg_mul]
    exact hrounded

/-- The opposite is rounded to the opposite. -/
theorem value_normalize_neg (n : ℤ) (s : Sign) (hless : |(n : ℚ) * 2 ^ e| < overflow) :
    value (ofUnpacked (UnpackedFloat.normalize Format.binary64 (-n) e s))
      = -value (ofUnpacked (UnpackedFloat.normalize Format.binary64 n e s)) := by
  rw [abs_mul, abs_of_pos (two_zpow_pos e)] at hless
  have hzero : value (ofUnpacked (UnpackedFloat.normalize Format.binary64 0 e s)) = 0 := by
    show value (ofUnpacked (.zero s)) = 0
    cases s <;> rfl
  obtain ⟨k, rfl | rfl⟩ := n.eq_nat_or_neg <;> rcases Nat.eq_zero_or_pos k with rfl | hpos
  · rw [Nat.cast_zero, neg_zero, hzero, neg_zero]
  · rw [Int.cast_natCast, Nat.abs_cast] at hless
    obtain ⟨r, hplus, hminus, -⟩ := exists_value_normalize hpos s hless
    rw [hplus, hminus]
  · rw [Nat.cast_zero, neg_zero, neg_zero, hzero, neg_zero]
  · rw [Int.cast_neg, Int.cast_natCast, abs_neg, Nat.abs_cast] at hless
    obtain ⟨r, hplus, hminus, -⟩ := exists_value_normalize hpos s hless
    rw [neg_neg, hplus, hminus, neg_neg]

/-- A mantissa at a smaller exponent. -/
theorem signed_decreaseExponent (s : Sign) (m : ℕ) {e e' : ℤ} (h : e' ≤ e) :
    ((s.apply ((decreaseExponent m e e').1 : ℤ) : ℤ) : ℚ) * 2 ^ e' = signed s (m * 2 ^ e) := by
  have hmagnitude : ((m <<< (e - e').toNat : ℕ) : ℚ) * 2 ^ e' = m * 2 ^ e := by
    have hexponent : ((e - e').toNat : ℤ) + e' = e := by omega
    rw [Nat.shiftLeft_eq, Nat.cast_mul, mul_assoc, Nat.cast_pow, Nat.cast_ofNat, ← zpow_natCast,
      ← zpow_add₀ two_ne_zero, hexponent]
  cases s with
  | positive => exact hmagnitude
  | negative =>
    show (((-((m <<< (e - e').toNat : ℕ) : ℤ) : ℤ)) : ℚ) * 2 ^ e' = -(m * 2 ^ e)
    rw [Int.cast_neg, neg_mul, Int.cast_natCast, hmagnitude]

/-- Two mantissas are added at the smaller of their exponents. -/
theorem add_of_unpack_eq {hm : 0 < m} {hm' : 0 < m'} (hs : x.toModel.unpack = .finite s m e hm)
    (hs' : y.toModel.unpack = .finite s' m' e' hm') :
    ∃ n : ℤ, x + y = ofUnpacked (UnpackedFloat.normalize Format.binary64 n (min e e') .positive) ∧
      (n : ℚ) * 2 ^ min e e' = value x + value y := by
  refine ⟨s.apply ((decreaseExponent m e (min e e')).1 : ℤ) + s'.apply ((decreaseExponent m' e' (min e e')).1 : ℤ),
    ?_, ?_⟩
  · show ofUnpacked (UnpackedFloat.add Format.binary64 x.toModel.unpack y.toModel.unpack) = _
    rw [hs, hs']
    rfl
  · unfold value
    rw [hs, hs', valueOf_finite, valueOf_finite, Int.cast_add, add_mul, signed_decreaseExponent s m (min_le_left _ _),
      signed_decreaseExponent s' m' (min_le_right _ _)]

theorem isRounded_add (hx : x.isFinite = true) (hy : y.isFinite = true) (hless : |value x + value y| < overflow) :
    IsRounded (x + y) (value x + value y) := by
  rcases parts_of_isFinite hx with ⟨s, hs, hzero⟩ | ⟨s, m, e, hm, hs, -, -⟩
  · show IsRounded (ofUnpacked (UnpackedFloat.add Format.binary64 x.toModel.unpack y.toModel.unpack)) _
    rcases parts_of_isFinite hy with ⟨s', hs', hzero'⟩ | ⟨s', m', e', hm', hs', -, -⟩
    · rw [hs, hs', hzero, hzero', add_zero]
      cases s <;> cases s' <;> exact isRounded_ofUnpacked_zero _
    · rw [hzero, zero_add, hs, hs']
      show IsRounded (ofUnpacked (.finite s' m' e' hm')) _
      rw [← hs', ofUnpacked_unpack]
      exact isRounded_of_value_eq hy rfl
  · rcases parts_of_isFinite hy with ⟨s', hs', hzero⟩ | ⟨s', m', e', hm', hs', -, -⟩
    · show IsRounded (ofUnpacked (UnpackedFloat.add Format.binary64 x.toModel.unpack y.toModel.unpack)) _
      rw [hzero, add_zero, hs, hs']
      show IsRounded (ofUnpacked (.finite s m e hm)) _
      rw [← hs, ofUnpacked_unpack]
      exact isRounded_of_value_eq hx rfl
    · obtain ⟨n, hsum, hvalue⟩ := add_of_unpack_eq hs hs'
      rw [← hvalue] at hless
      rw [hsum, ← hvalue]
      exact isRounded_normalize _ _ hless

/-- Numbers that cancel out leave a positive zero. -/
theorem add_eq_zero (hx : x.isFinite = true) (hy : y.isFinite = true) (hne : value x ≠ 0)
    (hzero : value x + value y = 0) : x + y = ofUnpacked (.zero .positive) := by
  rcases parts_of_isFinite hx with ⟨s, -, hvalue⟩ | ⟨s, m, e, hm, hs, -, -⟩
  · exact absurd hvalue hne
  rcases parts_of_isFinite hy with ⟨s', -, hvalue⟩ | ⟨s', m', e', hm', hs', -, -⟩
  · exact absurd (by rwa [hvalue, add_zero] at hzero) hne
  obtain ⟨n, hsum, hvalue⟩ := add_of_unpack_eq hs hs'
  rw [hzero] at hvalue
  obtain rfl : n = 0 := by exact_mod_cast (mul_eq_zero.mp hvalue).resolve_right (two_zpow_pos _).ne'
  exact hsum

theorem unpack_neg (hx : x.isFinite = true) : (-x).toModel.unpack = x.toModel.unpack.neg := by
  show UnpackedFloat.unpack Format.binary64 (UnpackedFloat.pack Format.binary64 x.toModel.unpack.neg) = _
  rcases parts_of_isFinite hx with ⟨s, hs, -⟩ | ⟨s, m, e, hm, hs, hparts, -⟩ <;> rw [hs]
  · exact UnpackedFloat.unpack_packedZero
  · exact hparts.unpack_pack _ hm

theorem value_neg (hx : x.isFinite = true) : value (-x) = -value x := by
  unfold value
  rw [unpack_neg hx]
  rcases parts_of_isFinite hx with ⟨s, hs, -⟩ | ⟨s, m, e, hm, hs, -, -⟩ <;> rw [hs]
  · exact neg_zero.symm
  · cases s with
    | positive => rfl
    | negative => exact (neg_neg _).symm

theorem isFinite_neg (hx : x.isFinite = true) : (-x).isFinite = true := by
  show (-x).toModel.unpack.isFinite = true
  rw [unpack_neg hx]
  rcases parts_of_isFinite hx with ⟨s, hs, -⟩ | ⟨s, m, e, hm, hs, -, -⟩ <;> rw [hs] <;> rfl

theorem IsRounded.neg (h : IsRounded x q) : IsRounded (-x) (-q) where
  isFinite := isFinite_neg h.isFinite
  nearest r hr := by
    have hnear := h.nearest (-r) hr.neg
    rw [value_neg h.isFinite]
    rwa [← abs_neg (-r - q), ← abs_neg (value x - q), neg_sub', neg_sub', neg_neg] at hnear

theorem unpackedSub_eq_add (a b : UnpackedFloat) :
    UnpackedFloat.sub Format.binary64 a b = UnpackedFloat.add Format.binary64 a b.neg := by
  cases b with
  | notANumber | zero s' => cases a <;> rfl
  | infinity s' => cases a <;> cases s' <;> rfl
  | finite s' m' e' hm' =>
    cases a with
    | notANumber | zero s | infinity s => rfl
    | finite s m e hm =>
      cases s' with
      | positive => rfl
      | negative =>
        unfold UnpackedFloat.sub UnpackedFloat.add UnpackedFloat.neg
        dsimp only
        congr 1
        exact sub_neg_eq_add _ _

/-- A difference is a sum with the opposite. -/
theorem sub_eq_add (x : Float) (hy : y.isFinite = true) : x - y = x + -y := by
  show ofUnpacked (UnpackedFloat.sub Format.binary64 x.toModel.unpack y.toModel.unpack)
    = ofUnpacked (UnpackedFloat.add Format.binary64 x.toModel.unpack (-y).toModel.unpack)
  rw [unpack_neg hy, unpackedSub_eq_add]

theorem isRounded_sub (hx : x.isFinite = true) (hy : y.isFinite = true) (hless : |value x - value y| < overflow) :
    IsRounded (x - y) (value x - value y) := by
  rw [sub_eq_add_neg, ← value_neg hy] at hless
  rw [sub_eq_add x hy, sub_eq_add_neg, ← value_neg hy]
  exact isRounded_add hx (isFinite_neg hy) hless

/-- A difference the other way round is the opposite. -/
theorem value_sub_comm (hx : x.isFinite = true) (hy : y.isFinite = true) (hless : |value x - value y| < overflow) :
    value (y - x) = -value (x - y) := by
  have hless' : |value y - value x| < overflow := by rwa [abs_sub_comm]
  rcases parts_of_isFinite hx with ⟨-, -, hzero⟩ | ⟨s, m, e, hm, hs, -, -⟩
  · rw [(isRounded_sub hx hy hless).value_eq, (isRounded_sub hy hx hless').value_eq, neg_sub]
    · rw [hzero, sub_zero]
      exact isRepresentable_value y
    · rw [hzero, zero_sub]
      exact (isRepresentable_value y).neg
  rcases parts_of_isFinite hy with ⟨-, -, hzero⟩ | ⟨s', m', e', hm', hs', -, -⟩
  · rw [(isRounded_sub hx hy hless).value_eq, (isRounded_sub hy hx hless').value_eq, neg_sub]
    · rw [hzero, zero_sub]
      exact (isRepresentable_value x).neg
    · rw [hzero, sub_zero]
      exact isRepresentable_value x
  have hneg := unpack_neg hx
  have hneg' := unpack_neg hy
  rw [hs] at hneg
  rw [hs'] at hneg'
  obtain ⟨n, hdiff, hvalue⟩ := add_of_unpack_eq hs hneg'
  obtain ⟨n', hdiff', hvalue'⟩ := add_of_unpack_eq hs' hneg
  have hopposite : n' = -n := by
    rw [value_neg hy, ← sub_eq_add_neg] at hvalue
    rw [value_neg hx, ← sub_eq_add_neg, min_comm, ← neg_sub, ← hvalue, ← neg_mul] at hvalue'
    exact_mod_cast mul_right_cancel₀ (two_zpow_pos _).ne' hvalue'
  rw [sub_eq_add y hx, sub_eq_add x hy, hdiff, hdiff', hopposite, min_comm]
  refine value_normalize_neg n .positive ?_
  rwa [hvalue, value_neg hy, ← sub_eq_add_neg]

end VisualEncoding.Double
