import VisualEncoding.Proofs.Scalar.Integers
import VisualEncoding.Proofs.Scalar.Ordered

/-!
# Counting in doubles

Whoever counts in integers of 53 bits and adds, subtracts and divides them need not care about rounding
(`Scalar.CountsExactly`). Sums and differences of such integers are representable, so that they are exact. A quotient is
rounded, but not as far as the next whole number, so that its floor is that of the exact quotient
(`Double.floor_value_div`).
-/

namespace VisualEncoding

/-- Integers of 53 bits are counted as integers are. -/
class Scalar.CountsExactly (α : Type) [Scalar α] : Prop where
  isFinite_ofInt : ∀ {n : ℤ}, |n| ≤ 2 ^ 53 → isFinite (ofInt n : α) = true
  toInt64_ofInt : ∀ {n : ℤ}, |n| ≤ 2 ^ 53 → toInt64 (ofInt n : α) = n
  toInt64_le : ∀ {x : α} {n : ℤ}, |n| ≤ 2 ^ 53 → x ≤ ofInt n → toInt64 x ≤ n
  le_ofInt : ∀ {m n : ℤ}, |m| ≤ 2 ^ 53 → |n| ≤ 2 ^ 53 → ((ofInt m : α) ≤ ofInt n ↔ m ≤ n)
  lt_ofInt : ∀ {m n : ℤ}, |m| ≤ 2 ^ 53 → |n| ≤ 2 ^ 53 → ((ofInt m : α) < ofInt n ↔ m < n)
  beq_ofInt : ∀ {m n : ℤ}, |m| ≤ 2 ^ 53 → |n| ≤ 2 ^ 53 → ((ofInt m : α) == ofInt n) = decide (m = n)
  ofInt_add : ∀ {m n : ℤ}, |m| ≤ 2 ^ 53 → |n| ≤ 2 ^ 53 → |m + n| ≤ 2 ^ 53 → (ofInt m : α) + ofInt n = ofInt (m + n)
  ofInt_sub : ∀ {m n : ℤ}, |m| ≤ 2 ^ 53 → |n| ≤ 2 ^ 53 → |m - n| ≤ 2 ^ 53 → (ofInt m : α) - ofInt n = ofInt (m - n)
  floor_div_mul : ∀ {m n : ℤ}, 0 < n → |m| + n + 1 < 2 ^ 53 →
    floor (ofInt m / ofInt n) * ofInt n = (ofInt (m / n * n) : α)

instance Extended.instCountsExactly : Scalar.CountsExactly Extended where
  isFinite_ofInt _ := rfl
  toInt64_ofInt h := Extended.toInt64_intCast (by rw [abs_le] at h; omega) (by rw [abs_le] at h; omega)
  toInt64_le := by
    intro x n hn hle
    obtain ⟨hlow, -⟩ := abs_le.mp hn
    have htruncate : Extended.truncate x ≤ n := by
      match x, hle with
      | .finite y, hle =>
        have hle : y ≤ n := Extended.finite_le.mp hle
        show (if y < 0 then ⌈y⌉ else ⌊y⌋) ≤ n
        split
        · exact Int.ceil_le.mpr hle
        · exact Int.cast_le.mp ((Int.floor_le y).trans hle)
      | .infinite true, _ =>
        have hlarge : ∀ k, 53 ≤ k → -(2 : ℤ) ^ k ≤ n := by
          intro k hk
          have hpow : (2 : ℤ) ^ 53 ≤ 2 ^ k := pow_le_pow_right₀ (by decide) hk
          omega
        unfold Extended.truncate
        dsimp only
        rw [if_pos rfl]
        exact hlarge 1024 (by decide)
      | .infinite false, ⟨_, hx, _, hy, hxy⟩ =>
        cases hx
        cases hy
        exact absurd hxy (not_le.mpr (EReal.coe_lt_top _))
    show max _ (min _ (Extended.truncate x)) ≤ n
    omega
  le_ofInt _ _ := Extended.finite_le.trans Int.cast_le
  lt_ofInt _ _ := Extended.finite_lt.trans Int.cast_lt
  beq_ofInt _ _ := by
    rw [Bool.eq_iff_iff, decide_eq_true_iff]
    exact Extended.finite_beq.trans Int.cast_inj
  ofInt_add _ _ _ := congrArg Extended.finite (Int.cast_add _ _).symm
  ofInt_sub _ _ _ := Extended.finite_sub.trans (congrArg Extended.finite (Int.cast_sub _ _).symm)
  floor_div_mul := by
    intro m n hpos _
    have hpos' : (n : ℝ) ≠ 0 := by exact_mod_cast hpos.ne'
    have hfloor : ⌊(m : ℝ) / n⌋ = m / n := by
      obtain ⟨k, rfl⟩ := Int.eq_ofNat_of_zero_le hpos.le
      rw [Int.cast_natCast, Int.floor_div_natCast, Int.floor_intCast]
    rw [Extended.ofInt_eq, Extended.ofInt_eq, Extended.finite_div hpos', Extended.floor_finite,
      Extended.finite_mul, hfloor, Extended.ofInt_eq, Int.cast_mul]

namespace Double

open Float.Model
open Float.Model.UnpackedFloat (Sign)

variable {x y : Float} {m m' : ℕ} {e e' : ℤ}

/-! ## The order of finite doubles -/

/-- The mantissa of a greater exponent makes up for the bits of a smaller one. -/
theorem IsCanonical.value_lt (h : IsCanonical m e) (h' : IsCanonical m' e')
    (hlt : toLex (e, (m : ℤ)) < toLex (e', (m' : ℤ))) : (m : ℚ) * 2 ^ e < m' * 2 ^ e' := by
  rcases Prod.Lex.toLex_lt_toLex.mp hlt with hlt | ⟨heq, hlt⟩ <;> dsimp only at *
  · have hle := h.le_exponent
    have hm : (m : ℚ) < 2 ^ 53 := by exact_mod_cast h.lt
    have hm' : (2 : ℚ) ^ 52 ≤ m' := by exact_mod_cast h'.normal.resolve_right (by omega)
    have hpow : (2 : ℚ) ^ (e + 1) ≤ 2 ^ e' := zpow_le_zpow_right₀ one_le_two (by omega)
    calc (m : ℚ) * 2 ^ e < 2 ^ 53 * 2 ^ e := mul_lt_mul_of_pos_right hm (two_zpow_pos e)
      _ = 2 ^ 52 * 2 ^ (e + 1) := by rw [zpow_add_one₀ two_ne_zero]; ring
      _ ≤ m' * 2 ^ e' := by gcongr
  · rw [heq]
    exact mul_lt_mul_of_pos_right (by exact_mod_cast hlt) (two_zpow_pos _)

/-- The places of finite doubles are in the order of the numbers that they stand for. -/
theorem valueOf_lt_of_place_lt {u v : UnpackedFloat} {a b : ℤ ×ₗ ℤ ×ₗ ℤ} (ha : place? u = some a)
    (hb : place? v = some b) (hu : u.isFinite = true) (hv : v.isFinite = true)
    (hu' : ∀ s m e hm, u = .finite s m e hm → IsCanonical m e)
    (hv' : ∀ s m e hm, v = .finite s m e hm → IsCanonical m e) (h : a < b) : valueOf u < valueOf v := by
  have hpos : ∀ {m : ℕ} {e : ℤ}, 0 < m → (0 : ℚ) < m * 2 ^ e := fun hm =>
    mul_pos (by exact_mod_cast hm) (two_zpow_pos _)
  match u, v, hu, hv with
  | .zero _, .zero _, _, _ =>
    cases ha
    cases hb
    exact absurd h (lt_irrefl _)
  | .zero _, .finite .positive m e hm, _, _ => exact hpos hm
  | .finite .negative m e hm, .zero _, _, _ => exact neg_lt_zero.mpr (hpos hm)
  | .finite .negative m e hm, .finite .positive m' e' hm', _, _ => exact (neg_lt_zero.mpr (hpos hm)).trans (hpos hm')
  | .finite .positive m e hm, .finite .positive m' e' hm', _, _ =>
    cases ha
    cases hb
    have hlt := (Prod.Lex.toLex_lt_toLex.mp h).resolve_left (lt_irrefl _)
    exact (hu' _ _ _ _ rfl).value_lt (hv' _ _ _ _ rfl) hlt.2
  | .finite .negative m e hm, .finite .negative m' e' hm', _, _ =>
    cases ha
    cases hb
    have hlt := ((Prod.Lex.toLex_lt_toLex.mp h).resolve_left (lt_irrefl _)).2
    refine neg_lt_neg ((hv' _ _ _ _ rfl).value_lt (hu' _ _ _ _ rfl) ?_)
    rw [Prod.Lex.toLex_lt_toLex] at hlt ⊢
    exact hlt.imp neg_lt_neg_iff.mp fun ⟨he, hm⟩ => ⟨(neg_inj.mp he).symm, neg_lt_neg_iff.mp hm⟩
  | .zero _, .finite .negative m e hm, _, _ | .finite .positive m e hm, .zero _, _, _
  | .finite .positive m e hm, .finite .negative m' e' hm', _, _ =>
    cases ha
    cases hb
    rcases Prod.Lex.toLex_lt_toLex.mp h with hlt | ⟨heq, -⟩
    · exact absurd hlt (by simp)
    · exact absurd heq (by simp)

/-- Two finite doubles at one place stand for the same number. -/
theorem valueOf_eq_of_place_eq {u v : UnpackedFloat} {a : ℤ ×ₗ ℤ ×ₗ ℤ} (ha : place? u = some a) (hb : place? v = some a)
    (hu : u.isFinite = true) (hv : v.isFinite = true) : valueOf u = valueOf v := by
  -- the number can be read off the place
  have hread : ∀ {w : UnpackedFloat}, place? w = some a → w.isFinite = true →
      valueOf w = if (ofLex a).1 = 0 then 0
        else ((ofLex (ofLex a).2).2 : ℚ) * 2 ^ ((ofLex a).1 * (ofLex (ofLex a).2).1) := by
    intro w hw hfinite
    match w, hfinite with
    | .zero _, _ =>
      cases hw
      rfl
    | .finite .positive m e hm, _ =>
      cases hw
      show (m : ℚ) * 2 ^ e = ((m : ℤ) : ℚ) * 2 ^ (1 * e)
      rw [one_mul, Int.cast_natCast]
    | .finite .negative m e hm, _ =>
      cases hw
      show -((m : ℚ) * 2 ^ e) = ((-m : ℤ) : ℚ) * 2 ^ (-1 * -e)
      rw [neg_mul_neg, one_mul, Int.cast_neg, Int.cast_natCast, neg_mul]
  rw [hread ha hu, hread hb hv]

variable (hx : x.isFinite = true) (hy : y.isFinite = true)
include hx hy

theorem value_lt_of_place_lt (h : place x < place y) : value x < value y :=
  valueOf_lt_of_place_lt (place?_eq_some (isNaN_of_isFinite hx)) (place?_eq_some (isNaN_of_isFinite hy)) hx hy
    (fun _ _ _ _ => isCanonical_of_unpack) (fun _ _ _ _ => isCanonical_of_unpack) h

theorem place_eq_iff : place x = place y ↔ value x = value y := by
  constructor
  · intro h
    exact valueOf_eq_of_place_eq (place?_eq_some (isNaN_of_isFinite hx))
      (h ▸ place?_eq_some (isNaN_of_isFinite hy)) hx hy
  · intro h
    rcases lt_trichotomy (place x) (place y) with hlt | heq | hgt
    · exact absurd h (value_lt_of_place_lt hx hy hlt).ne
    · exact heq
    · exact absurd h (value_lt_of_place_lt hy hx hgt).ne'

theorem place_lt_iff : place x < place y ↔ value x < value y := by
  refine ⟨value_lt_of_place_lt hx hy, fun h => ?_⟩
  rcases lt_trichotomy (place x) (place y) with hlt | heq | hgt
  · exact hlt
  · exact absurd ((place_eq_iff hx hy).mp heq) h.ne
  · exact absurd (value_lt_of_place_lt hy hx hgt) h.asymm

theorem lt_iff_value : x < y ↔ value x < value y :=
  (lt_iff_place (isNaN_of_isFinite hx) (isNaN_of_isFinite hy)).trans (place_lt_iff hx hy)

theorem le_iff_value : x ≤ y ↔ value x ≤ value y := by
  rw [le_iff_place (isNaN_of_isFinite hx) (isNaN_of_isFinite hy), ← not_lt, place_lt_iff hy hx, not_lt]

theorem beq_iff_value : (x == y) = true ↔ value x = value y :=
  (beq_iff_place (isNaN_of_isFinite hx) (isNaN_of_isFinite hy)).trans (place_eq_iff hx hy)

/-- Doubles other than zero are the same if they stand for the same number. -/
theorem eq_of_value_eq (h : value x = value y) (hne : value y ≠ 0) : x = y := by
  obtain ⟨-, -, hsame | ⟨rfl, -⟩ | ⟨-, rfl⟩⟩ := Float.beq_iff_ne_nan_and_eq.mp ((beq_iff_value hx hy).mpr h)
  · exact hsame
  · exact absurd (h.symm.trans rfl) hne
  · exact absurd rfl hne

omit hx hy

/-- Finite doubles stand between the infinities. -/
theorem fst_place?_bounds (hx : x.isFinite = true) {a : ℤ ×ₗ ℤ ×ₗ ℤ} (ha : a ∈ place? x.toModel.unpack) :
    -1 ≤ (ofLex a).1 ∧ (ofLex a).1 ≤ 1 := by
  have hfinite : x.toModel.unpack.isFinite = true := hx
  match x.toModel.unpack, hfinite, ha with
  | .zero _, _, rfl => exact ⟨show (-1 : ℤ) ≤ 0 by decide, show (0 : ℤ) ≤ 1 by decide⟩
  | .finite .positive _ _ _, _, rfl => exact ⟨show (-1 : ℤ) ≤ 1 by decide, show (1 : ℤ) ≤ 1 by decide⟩
  | .finite .negative _ _ _, _, rfl => exact ⟨show (-1 : ℤ) ≤ -1 by decide, show (-1 : ℤ) ≤ 1 by decide⟩

theorem fst_le_of_le {a b : ℤ ×ₗ ℤ ×ₗ ℤ} (h : a ≤ b) : (ofLex a).1 ≤ (ofLex b).1 := by
  rcases Prod.Lex.toLex_le_toLex.mp h with hlt | ⟨heq, -⟩
  · exact le_of_lt hlt
  · exact le_of_eq heq

/-- What has a place is finite or an infinity. -/
theorem isFinite_or_infinity {a : ℤ ×ₗ ℤ ×ₗ ℤ} (ha : a ∈ place? x.toModel.unpack) :
    x.isFinite = true ∨ ∃ s, x.toModel.unpack = .infinity s := by
  match hx : x.toModel.unpack, ha with
  | .infinity s, _ => exact .inr ⟨s, rfl⟩
  | .zero _, _ => exact .inl (congrArg UnpackedFloat.isFinite hx)
  | .finite _ _ _ _, _ => exact .inl (congrArg UnpackedFloat.isFinite hx)

/-- What is not below a finite double is a finite one, or infinity. -/
theorem cases_of_le (hx : x.isFinite = true) (h : x ≤ y) :
    y.toModel.unpack = .infinity .positive ∨ y.isFinite = true ∧ value x ≤ value y := by
  obtain ⟨a, ha, b, hb, hle⟩ := le_iff.mp h
  obtain ⟨hlow, -⟩ := fst_place?_bounds hx ha
  have hfst := fst_le_of_le hle
  rcases isFinite_or_infinity hb with hy | ⟨s, hs⟩
  · exact .inr ⟨hy, (le_iff_value hx hy).mp h⟩
  · cases s with
    | positive => exact .inl hs
    | negative =>
      rw [hs] at hb
      cases hb
      exact absurd (hlow.trans hfst) (show ¬ (-1 : ℤ) ≤ -2 by decide)

/-- What is not above a finite double is a finite one, or negative infinity. -/
theorem cases_of_ge (hy : y.isFinite = true) (h : x ≤ y) :
    x.toModel.unpack = .infinity .negative ∨ x.isFinite = true ∧ value x ≤ value y := by
  obtain ⟨a, ha, b, hb, hle⟩ := le_iff.mp h
  obtain ⟨-, hhigh⟩ := fst_place?_bounds hy hb
  have hfst := fst_le_of_le hle
  rcases isFinite_or_infinity ha with hx | ⟨s, hs⟩
  · exact .inr ⟨hx, (le_iff_value hx hy).mp h⟩
  · cases s with
    | negative => exact .inl hs
    | positive =>
      rw [hs] at ha
      cases ha
      exact absurd (hfst.trans hhigh) (show ¬ (2 : ℤ) ≤ 1 by decide)

/-! ## Whole parts -/

/-- The magnitude of a double as a quotient, rounded down. -/
theorem floor_magnitude (m : ℕ) (e : ℤ) :
    ⌊(m : ℚ) * 2 ^ e⌋ = (m * (Decimal.powerRatio 2 e).1 / (Decimal.powerRatio 2 e).2 : ℕ) := by
  rw [zpow_eq_powerRatio, ← mul_div_assoc, ← Nat.cast_mul, Rat.floor_natCast_div_natCast]
  rfl

theorem ceil_magnitude (m : ℕ) (e : ℤ) :
    ⌈(m : ℚ) * 2 ^ e⌉
      = ((m * (Decimal.powerRatio 2 e).1 + (Decimal.powerRatio 2 e).2 - 1) / (Decimal.powerRatio 2 e).2 : ℕ) := by
  have hden : 0 < (Decimal.powerRatio 2 e).2 := Nat.pow_pos two_pos
  rw [zpow_eq_powerRatio, ← mul_div_assoc, ← Nat.cast_mul]
  generalize m * (Decimal.powerRatio 2 e).1 = num
  generalize (Decimal.powerRatio 2 e).2 = den at hden
  have hpos : (0 : ℚ) < den := by exact_mod_cast hden
  have hlow : (num + den - 1) / den * den < num + den := by
    have := Nat.div_mul_le_self (num + den - 1) den
    omega
  have hhigh : num ≤ (num + den - 1) / den * den := by
    have := Nat.lt_div_mul_add hden (a := num + den - 1)
    omega
  rw [Int.ceil_eq_iff, Int.cast_natCast]
  constructor
  · rw [lt_div_iff₀ hpos, sub_mul, one_mul, sub_lt_iff_lt_add]
    exact_mod_cast hlow
  · rw [div_le_iff₀ hpos]
    exact_mod_cast hhigh

/-- **Rounding down is exact**, but for the negative zero, which stays. -/
theorem floorFloat_eq (hx : x.isFinite = true) (hzero : x.toModel.unpack ≠ .zero .negative) :
    Decimal.floorFloat x = Decimal.floatOfInt ⌊value x⌋ := by
  unfold Decimal.floorFloat Decimal.wholeFloat
  rw [exact_ofFloat_eq]
  rcases parts_of_isFinite hx with ⟨s, hs, hvalue⟩ | ⟨s, m, e, hm, hs, -, hvalue⟩
  · cases s with
    | negative => exact absurd hs hzero
    | positive =>
      rw [hs, hvalue, Int.floor_zero]
      show Decimal.nearestRatio (0 * _ / _) 1 = Decimal.nearestRatio 0 1
      rw [Nat.zero_mul, Nat.zero_div]
  · rw [hs, hvalue]
    cases s with
    | positive =>
      show Decimal.nearestRatio (m * _ / _) 1 = Decimal.floatOfInt ⌊(m : ℚ) * 2 ^ e⌋
      rw [floor_magnitude]
      unfold Decimal.floatOfInt
      rw [if_neg (Int.not_lt.mpr (Int.natCast_nonneg _)), Int.natAbs_natCast]
    | negative =>
      show -Decimal.nearestRatio ((m * _ + _ - 1) / _) 1 = Decimal.floatOfInt ⌊-((m : ℚ) * 2 ^ e)⌋
      have hpos : 0 < ⌈(m : ℚ) * 2 ^ e⌉ := Int.ceil_pos.mpr (mul_pos (by exact_mod_cast hm) (two_zpow_pos e))
      rw [Int.floor_neg]
      unfold Decimal.floatOfInt
      rw [if_pos (by omega), Int.natAbs_neg, ceil_magnitude, Int.natAbs_natCast]

/-- The whole part of a double is rounded down or up. -/
theorem truncateFloat_cases (hx : x.isFinite = true) :
    Decimal.truncateFloat x = ⌊value x⌋ ∨ Decimal.truncateFloat x = ⌈value x⌉ := by
  unfold Decimal.truncateFloat
  rw [exact_ofFloat_eq]
  rcases parts_of_isFinite hx with ⟨s, hs, hvalue⟩ | ⟨s, m, e, hm, hs, -, hvalue⟩ <;> rw [hs, hvalue]
  · left
    rw [Int.floor_zero]
    cases s with
    | positive =>
      show ((0 * _ / _ : ℕ) : ℤ) = 0
      rw [Nat.zero_mul, Nat.zero_div, Nat.cast_zero]
    | negative =>
      show -((0 * _ / _ : ℕ) : ℤ) = 0
      rw [Nat.zero_mul, Nat.zero_div, Nat.cast_zero, neg_zero]
  · cases s with
    | positive => exact .inl (floor_magnitude m e).symm
    | negative => exact .inr ((congrArg Neg.neg (floor_magnitude m e).symm).trans Int.ceil_neg.symm)

/-- The whole part of a double that stands for a whole number. -/
theorem truncateFloat_eq {n : ℤ} (hx : x.isFinite = true) (hn : value x = n) : Decimal.truncateFloat x = n := by
  rcases truncateFloat_cases hx with h | h <;> rw [h, hn]
  · exact Int.floor_intCast n
  · exact Int.ceil_intCast n

/-! ## Integers -/

section

variable {a b n : ℤ}

theorem isFinite_ofInt (hn : |n| ≤ 2 ^ 53) : (Decimal.floatOfInt n).isFinite = true :=
  isFinite_floatOfInt (by rw [Int.abs_eq_natAbs] at hn; omega)

/-- A double that stands for an integer other than zero is that integer. -/
theorem eq_floatOfInt (hx : x.isFinite = true) (hn : |n| ≤ 2 ^ 53) (hvalue : value x = n) (hne : n ≠ 0) :
    x = Decimal.floatOfInt n :=
  eq_of_value_eq hx (isFinite_ofInt hn) (hvalue.trans (value_floatOfInt hn).symm)
    (by rw [value_floatOfInt hn]; exact_mod_cast hne)

/-- What the magnitude is rounded to is given the sign back. -/
theorem value_wholeFloat {magnitude : Bool → ℕ → ℕ → ℕ} {negative : Bool} {k whole : ℕ} {e : ℤ}
    (hparts : exactOf x.toModel.unpack = .finite negative k e)
    (hwhole : magnitude negative (k * (Decimal.powerRatio 2 e).1) (Decimal.powerRatio 2 e).2 = whole)
    (hsmall : whole ≤ 2 ^ 53) :
    (Decimal.wholeFloat magnitude x).isFinite = true ∧
      value (Decimal.wholeFloat magnitude x) = (if negative then -(whole : ℤ) else whole : ℤ) := by
  have hnatural : Decimal.nearestRatio whole 1 = Decimal.floatOfInt whole := by
    unfold Decimal.floatOfInt
    rw [if_neg (by omega), Int.natAbs_natCast]
  have hsmall' : |(whole : ℤ)| ≤ 2 ^ 53 := by rw [Nat.abs_cast]; exact_mod_cast hsmall
  have hfinite := isFinite_ofInt hsmall'
  unfold Decimal.wholeFloat
  rw [exact_ofFloat_eq, hparts]
  dsimp only
  rw [hwhole, hnatural]
  cases negative with
  | false =>
    simp only [if_neg Bool.false_ne_true]
    exact ⟨hfinite, value_floatOfInt hsmall'⟩
  | true =>
    simp only [if_true]
    refine ⟨isFinite_neg hfinite, (value_neg hfinite).trans ?_⟩
    rw [value_floatOfInt hsmall', Int.cast_neg]

/-- Zero is rounded down to itself, also if it is negative. -/
theorem value_floorFloat (hx : x.isFinite = true) (hsmall : |⌊value x⌋| ≤ 2 ^ 53) :
    (Decimal.floorFloat x).isFinite = true ∧ value (Decimal.floorFloat x) = ⌊value x⌋ := by
  by_cases hzero : x.toModel.unpack = .zero .negative
  · have hvalue : value x = 0 := by
      unfold value
      rw [hzero]
      rfl
    have hparts : ∃ e, exactOf x.toModel.unpack = .finite true 0 e := ⟨_, congrArg exactOf hzero⟩
    obtain ⟨e, hparts⟩ := hparts
    have hwhole : (0 * (Decimal.powerRatio 2 e).1 + (Decimal.powerRatio 2 e).2 - 1) / (Decimal.powerRatio 2 e).2 = 0 := by
      have hden : 0 < (Decimal.powerRatio 2 e).2 := Nat.pow_pos two_pos
      exact Nat.div_eq_of_lt (by omega)
    rw [hvalue, Int.floor_zero]
    exact value_wholeFloat hparts ((if_pos rfl).trans hwhole) (Nat.zero_le _)
  · rw [floorFloat_eq hx hzero]
    exact ⟨isFinite_ofInt hsmall, value_floatOfInt hsmall⟩

/-- Rounding to a whole number is exact as well. -/
theorem value_wholeFloat_roundHalfUp (hx : x.isFinite = true) (hsmall : |Decimal.roundFloat x| ≤ 2 ^ 53) :
    (Decimal.wholeFloat (fun _ => Decimal.roundHalfUp) x).isFinite = true ∧
      value (Decimal.wholeFloat (fun _ => Decimal.roundHalfUp) x) = Decimal.roundFloat x := by
  have hparts : ∃ negative k e, exactOf x.toModel.unpack = .finite negative k e := by
    rcases parts_of_isFinite hx with ⟨s, hs, -⟩ | ⟨s, k, e, hm, hs, -, -⟩ <;> rw [hs] <;> exact ⟨_, _, _, rfl⟩
  obtain ⟨negative, k, e, hparts⟩ := hparts
  have hround : Decimal.roundFloat x = if negative then
      -((Decimal.roundHalfUp (k * (Decimal.powerRatio 2 e).1) (Decimal.powerRatio 2 e).2 : ℕ) : ℤ) else
      (Decimal.roundHalfUp (k * (Decimal.powerRatio 2 e).1) (Decimal.powerRatio 2 e).2 : ℕ) := by
    unfold Decimal.roundFloat
    rw [exact_ofFloat_eq, hparts]
  rw [hround] at hsmall ⊢
  refine value_wholeFloat hparts rfl ?_
  cases negative <;> simpa using hsmall

theorem abs_intCast_lt (hn : |n| ≤ 2 ^ 53) : |(n : ℚ)| < overflow := by
  have hle : |(n : ℚ)| ≤ 2 ^ 53 := by exact_mod_cast hn
  exact hle.trans_lt ((pow_lt_pow_right₀ one_lt_two (by decide)).trans pow_lt_overflow)

theorem floatOfInt_add (ha : |a| ≤ 2 ^ 53) (hb : |b| ≤ 2 ^ 53) (hsum : |a + b| ≤ 2 ^ 53) :
    Decimal.floatOfInt a + Decimal.floatOfInt b = Decimal.floatOfInt (a + b) := by
  have hvalue : value (Decimal.floatOfInt a) + value (Decimal.floatOfInt b) = (a + b : ℤ) := by
    rw [value_floatOfInt ha, value_floatOfInt hb, Int.cast_add]
  have hrounded := isRounded_add (isFinite_ofInt ha) (isFinite_ofInt hb) (by rw [hvalue]; exact abs_intCast_lt hsum)
  rw [hvalue] at hrounded
  by_cases hzero : a + b = 0
  · rw [hzero]
    by_cases hzero' : a = 0
    · obtain rfl : b = 0 := by omega
      rw [hzero']
      rfl
    · refine add_eq_zero (isFinite_ofInt ha) (isFinite_ofInt hb) ?_ (by rw [hvalue, hzero, Int.cast_zero])
      rw [value_floatOfInt ha]
      exact_mod_cast hzero'
  · exact eq_floatOfInt hrounded.isFinite hsum (hrounded.value_eq (isRepresentable_intCast hsum)) hzero

theorem neg_floatOfInt (hn : |n| ≤ 2 ^ 53) (hne : n ≠ 0) : -Decimal.floatOfInt n = Decimal.floatOfInt (-n) := by
  have hfinite := isFinite_ofInt hn
  refine eq_floatOfInt (isFinite_neg hfinite) (by rwa [abs_neg]) ?_ (by omega)
  rw [value_neg hfinite, value_floatOfInt hn, Int.cast_neg]

theorem floatOfInt_sub (ha : |a| ≤ 2 ^ 53) (hb : |b| ≤ 2 ^ 53) (hdiff : |a - b| ≤ 2 ^ 53) :
    Decimal.floatOfInt a - Decimal.floatOfInt b = Decimal.floatOfInt (a - b) := by
  by_cases hzero : b = 0
  · -- nothing is taken away, but the zero that this leaves may not be negative
    subst hzero
    by_cases hzero' : a = 0
    · subst hzero'
      rfl
    · have hvalue : value (Decimal.floatOfInt a) - value (Decimal.floatOfInt 0) = a := by
        rw [value_floatOfInt ha, value_floatOfInt hb, Int.cast_zero, sub_zero]
      have hrounded := isRounded_sub (isFinite_ofInt ha) (isFinite_ofInt hb) (by rw [hvalue]; exact abs_intCast_lt ha)
      rw [hvalue] at hrounded
      rw [sub_zero]
      exact eq_floatOfInt hrounded.isFinite ha (hrounded.value_eq (isRepresentable_intCast ha)) hzero'
  · rw [sub_eq_add _ (isFinite_ofInt hb), neg_floatOfInt hb hzero, sub_eq_add_neg]
    exact floatOfInt_add ha (by rwa [abs_neg]) (by rwa [← sub_eq_add_neg])

/-- The whole part of what is not above an integer is not either. -/
theorem truncateFloat_le (hn : |n| ≤ 2 ^ 53) (hle : x ≤ Decimal.floatOfInt n) : Decimal.truncateFloat x ≤ n := by
  rcases cases_of_ge (isFinite_ofInt hn) hle with hinfinite | ⟨hx, hle⟩
  · obtain ⟨hlow, -⟩ := abs_le.mp hn
    have hlarge : ∀ k, 53 ≤ k → -((Nat.pow 2 k : ℕ) : ℤ) ≤ n := by
      intro k hk
      have hpow : 2 ^ 53 ≤ Nat.pow 2 k := Nat.pow_le_pow_right (by decide) hk
      omega
    unfold Decimal.truncateFloat
    rw [exact_ofFloat_eq, hinfinite]
    exact hlarge 1024 (by decide)
  · rw [value_floatOfInt hn] at hle
    rcases truncateFloat_cases hx with h | h <;> rw [h]
    · exact Int.cast_le.mp ((Int.floor_le _).trans hle)
    · exact Int.ceil_le.mpr hle

/-- A positive number has a positive sign. -/
theorem unpack_of_pos (hx : x.isFinite = true) (hpos : 0 < value x) :
    ∃ m e hm, x.toModel.unpack = .finite .positive m e hm := by
  rcases parts_of_isFinite hx with ⟨s, -, hzero⟩ | ⟨s, m, e, hm, hs, -, hparts⟩
  · exact absurd hzero hpos.ne'
  · cases s with
    | positive => exact ⟨m, e, hm, hs⟩
    | negative =>
      have hneg : value x = -(m * 2 ^ e) := hparts
      have : (0 : ℚ) < m * 2 ^ e := mul_pos (by exact_mod_cast hm) (two_zpow_pos e)
      linarith

theorem unpack_floatOfInt (hn : n < 2 ^ 64) (hpos : 0 < n) :
    ∃ m e hm, (Decimal.floatOfInt n).toModel.unpack = .finite .positive m e hm := by
  have hfinite : (Decimal.floatOfInt n).isFinite = true := isFinite_floatOfInt (by omega)
  refine unpack_of_pos hfinite ?_
  have hcount : Decimal.floatOfInt n = Decimal.nearestRatio n.natAbs 1 := if_neg (by omega)
  rw [hcount] at hfinite ⊢
  rcases one_le_nearestRatio Nat.one_pos (show 1 ≤ n.natAbs by omega) with hinfinite | ⟨-, hone⟩
  · have hnot : (Decimal.nearestRatio n.natAbs 1).toModel.unpack.isFinite = true := hfinite
    rw [hinfinite] at hnot
    nomatch hnot
  · exact one_pos.trans_le hone

theorem floatOfInt_mul (ha : |a| ≤ 2 ^ 53) (hb : |b| ≤ 2 ^ 53) (hpos : 0 < b) (hproduct : |a * b| ≤ 2 ^ 53) :
    Decimal.floatOfInt a * Decimal.floatOfInt b = Decimal.floatOfInt (a * b) := by
  by_cases hzero : a = 0
  · obtain ⟨m, e, hm, hs⟩ := unpack_floatOfInt (by rw [abs_of_pos hpos] at hb; omega) hpos
    rw [hzero, zero_mul]
    show ofUnpacked (UnpackedFloat.mul Format.binary64 (.zero .positive) (Decimal.floatOfInt b).toModel.unpack) = _
    rw [hs]
    rfl
  · have hvalue : value (Decimal.floatOfInt a) * value (Decimal.floatOfInt b) = (a * b : ℤ) := by
      rw [value_floatOfInt ha, value_floatOfInt hb, Int.cast_mul]
    have hrounded := isRounded_mul (isFinite_ofInt ha) (isFinite_ofInt hb)
      (by rw [hvalue]; exact abs_intCast_lt hproduct)
    rw [hvalue] at hrounded
    exact eq_floatOfInt hrounded.isFinite hproduct (hrounded.value_eq (isRepresentable_intCast hproduct))
      (Int.mul_ne_zero hzero hpos.ne')

/-! ## Quotients of integers -/

/-- A part of a number is not greater than the number, even if there are so many parts that their count is infinite. -/
theorem div_count (hx : x.isFinite = true) (hnonneg : 0 ≤ value x) (hn : 1 ≤ n) :
    (x / Decimal.floatOfInt n).isFinite = true ∧ 0 ≤ value (x / Decimal.floatOfInt n) ∧
      value (x / Decimal.floatOfInt n) ≤ value x := by
  have hcount : Decimal.floatOfInt n = Decimal.nearestRatio n.natAbs 1 := if_neg (by omega)
  rw [hcount]
  rcases one_le_nearestRatio Nat.one_pos (show 1 ≤ n.natAbs by omega) with hinfinite | ⟨hfinite, hone⟩
  · have hnone : x / Decimal.nearestRatio n.natAbs 1 = ofUnpacked (.zero .positive) ∨
        x / Decimal.nearestRatio n.natAbs 1 = ofUnpacked (.zero .negative) := by
      show ofUnpacked (UnpackedFloat.div Format.binary64 x.toModel.unpack _) = _ ∨
        ofUnpacked (UnpackedFloat.div Format.binary64 x.toModel.unpack _) = _
      rw [hinfinite]
      rcases parts_of_isFinite hx with ⟨s, hs, -⟩ | ⟨s, m, e, hm, hs, -, -⟩ <;> rw [hs] <;> cases s
      · exact .inr rfl
      · exact .inl rfl
      · exact .inr rfl
      · exact .inl rfl
    rcases hnone with hzero | hzero <;> rw [hzero]
    · exact ⟨rfl, le_rfl, hnonneg⟩
    · exact ⟨rfl, le_rfl, hnonneg⟩
  · have hpart : value x / value (Decimal.nearestRatio n.natAbs 1) ≤ value x := div_le_self hnonneg hone
    have hpart' : 0 ≤ value x / value (Decimal.nearestRatio n.natAbs 1) := div_nonneg hnonneg (by linarith)
    have hrounded := isRounded_div hx hfinite (by linarith : (0 : ℚ) < _).ne'
      (by rw [abs_of_nonneg hpart']; exact hpart.trans_lt ((le_abs_self _).trans_lt (abs_value_lt x)))
    exact ⟨hrounded.isFinite, hrounded.nonneg hpart',
      hrounded.value_le (isRepresentable_value x) hpart⟩

/-- Just below a whole number there is another representable one: nearer than a quotient by `b` can be. -/
theorem exists_representable_below (hpos : 0 < b) (hb : b ≤ 2 ^ 53) (hless : |n| * b + 1 < 2 ^ 53) :
    ∃ r, IsRepresentable r ∧ r < n ∧ (n : ℚ) - 2 / b < r := by
  obtain ⟨b, rfl⟩ := Int.eq_ofNat_of_zero_le hpos.le
  have hle : 2 ^ b.log2 ≤ b := Nat.log2_self_le (by omega)
  have hlt : b < 2 ^ (b.log2 + 1) := Nat.lt_log2_self
  have hpow : (0 : ℚ) < 2 ^ b.log2 := by positivity
  refine ⟨n - 1 / 2 ^ b.log2, ⟨n * 2 ^ b.log2 - 1, -b.log2, ?_, ?_, ?_⟩, ?_, ?_⟩
  · have hmul : |n * 2 ^ b.log2| ≤ |n| * b := by
      rw [abs_mul, abs_of_pos (by positivity : (0 : ℤ) < 2 ^ b.log2)]
      exact mul_le_mul_of_nonneg_left (by exact_mod_cast hle) (abs_nonneg n)
    have := abs_sub (n * 2 ^ b.log2) 1
    rw [abs_one] at this
    exact (this.trans (add_le_add_left hmul 1)).trans_lt hless
  · have hlog : b.log2 ≤ 53 := log2_le_of_lt (by omega)
    omega
  · rw [zpow_neg, zpow_natCast]
    push_cast
    field_simp
  · linarith [div_pos one_pos hpow]
  · have hdouble : (1 : ℚ) / 2 ^ b.log2 < 2 / (b : ℤ) := by
      rw [div_lt_div_iff₀ hpow (by exact_mod_cast hpos), one_mul]
      exact_mod_cast (by rw [pow_succ] at hlt; omega : b < 2 * 2 ^ b.log2)
    linarith

theorem isRounded_quotient (hpos : 0 < b) (hless : |a| + b + 1 < 2 ^ 53) :
    IsRounded (Decimal.floatOfInt a / Decimal.floatOfInt b) (a / b) := by
  have hnonneg := abs_nonneg a
  have ha : |a| ≤ 2 ^ 53 := by omega
  have hb : |b| ≤ 2 ^ 53 := by rw [abs_of_pos hpos]; omega
  have hpos' : (0 : ℚ) < b := by exact_mod_cast hpos
  have hone : (1 : ℚ) ≤ b := by exact_mod_cast hpos
  have hquotient : |(a : ℚ) / b| < overflow := by
    rw [abs_div, abs_of_pos hpos']
    exact (div_le_self (abs_nonneg _) hone).trans_lt (abs_intCast_lt ha)
  have hrounded := isRounded_div (isFinite_ofInt ha) (isFinite_ofInt hb)
    (by rw [value_floatOfInt hb]; exact hpos'.ne') (by rw [value_floatOfInt ha, value_floatOfInt hb]; exact hquotient)
  rwa [value_floatOfInt ha, value_floatOfInt hb] at hrounded

/-- A quotient lies at least one part below the next whole number. -/
theorem quotient_le_next (hpos : 0 < b) : (a : ℚ) / b ≤ (a / b + 1 : ℤ) - 1 / b := by
  have hsplit : a / b * b + a % b = a := Int.ediv_mul_add_emod a b
  have hrest := Int.emod_lt_of_pos a hpos
  have hle : a + 1 ≤ (a / b + 1) * b := by
    rw [add_mul]
    omega
  rw [le_sub_iff_add_le, ← add_div, div_le_iff₀ (by exact_mod_cast hpos)]
  exact_mod_cast hle

/-- A quotient is not rounded up to the next whole number, because another number is nearer to it. -/
theorem IsRounded.value_lt_next (hx : IsRounded x (a / b)) (hpos : 0 < b) (hless : |a| + b + 1 < 2 ^ 53) :
    value x < (a / b + 1 : ℤ) := by
  have hnonneg := abs_nonneg a
  have hnext : |a / b + 1| * b + 1 < 2 ^ 53 := by
    have hle : |(a / b + 1) * b| ≤ |a| + b := by
      have hsplit : a / b * b + a % b = a := Int.ediv_mul_add_emod a b
      have hrest := Int.emod_nonneg a hpos.ne'
      have hrest' := Int.emod_lt_of_pos a hpos
      rw [abs_le, add_mul]
      constructor <;> linarith [le_abs_self a, neg_abs_le a]
    rw [abs_mul, abs_of_pos hpos] at hle
    omega
  by_contra hnot
  obtain ⟨r, hr, hbelow, habove⟩ := exists_representable_below (n := a / b + 1) hpos (by omega) hnext
  have hquotient := quotient_le_next (a := a) hpos
  have hnear := hx.nearest r hr
  have hfar : (a / b + 1 : ℤ) - (a : ℚ) / b ≤ |value x - a / b| :=
    (sub_le_sub_right (not_lt.mp hnot) _).trans (le_abs_self _)
  have hclose : |r - a / b| < (a / b + 1 : ℤ) - (a : ℚ) / b := by
    have htwo : (2 : ℚ) / b = 1 / b + 1 / b := by ring
    rw [abs_lt]
    constructor <;> linarith
  linarith

/-- A quotient other than zero is not rounded to zero. -/
theorem IsRounded.value_quotient_ne_zero (hx : IsRounded x (a / b)) (hpos : 0 < b) (hb : b ≤ 2 ^ 53) (hne : a ≠ 0) :
    value x ≠ 0 := by
  intro hzero
  have hpos' : (0 : ℚ) < b := by exact_mod_cast hpos
  have hleast : IsRepresentable (2 ^ (-53 : ℤ)) := ⟨1, -53, by decide, by decide, by simp⟩
  have hpart : (2 : ℚ) ^ (-53 : ℤ) ≤ 1 / b := by
    rw [zpow_neg, ← one_div]
    exact one_div_le_one_div_of_le hpos' (by exact_mod_cast hb)
  have hpositive := two_zpow_pos (-53)
  rcases hne.lt_or_gt with hneg | hgt
  · have hle : (a : ℚ) / b ≤ -(1 / b) := by
      rw [← neg_div]
      exact div_le_div_of_nonneg_right (by exact_mod_cast (by omega : a ≤ -1)) hpos'.le
    linarith [hx.value_le hleast.neg (by linarith)]
  · have hle : 1 / (b : ℚ) ≤ a / b := div_le_div_of_nonneg_right (by exact_mod_cast hgt) hpos'.le
    linarith [hx.le_value hleast (hpart.trans hle)]

/-- **The quotient of integers is rounded to a number with the same floor**, though it may be rounded up. -/
theorem floor_value_div (hpos : 0 < b) (hless : |a| + b + 1 < 2 ^ 53) :
    ⌊value (Decimal.floatOfInt a / Decimal.floatOfInt b)⌋ = a / b := by
  have hrounded := isRounded_quotient hpos hless
  have hsmall : |a / b| ≤ |a| := Int.abs_ediv_le_abs a b
  have hlow : ((a / b : ℤ) : ℚ) ≤ a / b := by
    rw [le_div_iff₀ (by exact_mod_cast hpos)]
    exact_mod_cast Int.ediv_mul_le a hpos.ne'
  refine Int.floor_eq_iff.mpr ⟨hrounded.le_value (isRepresentable_intCast (by omega)) hlow, ?_⟩
  exact_mod_cast hrounded.value_lt_next hpos hless

/-- A multiple that is found by dividing. -/
theorem floor_div_mul (hpos : 0 < b) (hless : |a| + b + 1 < 2 ^ 53) :
    Decimal.floorFloat (Decimal.floatOfInt a / Decimal.floatOfInt b) * Decimal.floatOfInt b
      = Decimal.floatOfInt (a / b * b) := by
  have hrounded := isRounded_quotient hpos hless
  have hnonneg := abs_nonneg a
  have hb : |b| ≤ 2 ^ 53 := by rw [abs_of_pos hpos]; omega
  have hsign : (Decimal.floatOfInt a / Decimal.floatOfInt b).toModel.unpack ≠ .zero .negative := by
    intro hzero
    by_cases ha : a = 0
    · obtain ⟨m, e, hm, hs⟩ := unpack_floatOfInt (n := b) (by omega) hpos
      have hpositive : Decimal.floatOfInt a / Decimal.floatOfInt b = ofUnpacked (.zero .positive) := by
        rw [ha]
        show ofUnpacked (UnpackedFloat.div Format.binary64 (.zero .positive) (Decimal.floatOfInt b).toModel.unpack) = _
        rw [hs]
        rfl
      rw [hpositive] at hzero
      exact nomatch UnpackedFloat.unpack_packedZero.symm.trans hzero
    · refine hrounded.value_quotient_ne_zero hpos (by omega) ha ?_
      unfold value
      rw [hzero]
      rfl
  have hsmall : |a / b| ≤ |a| := Int.abs_ediv_le_abs a b
  have hmultiple : |a / b * b| ≤ |a| + b := by
    rw [abs_le]
    have := Int.ediv_mul_add_emod a b
    have := Int.emod_nonneg a hpos.ne'
    have := Int.emod_lt_of_pos a hpos
    constructor <;> linarith [le_abs_self a, neg_abs_le a]
  rw [floorFloat_eq hrounded.isFinite hsign, floor_value_div hpos hless]
  exact floatOfInt_mul (by omega) hb hpos (by omega)

end

end Double

/-! ## Doubles on a platform -/

/-- Doubles on a platform with certain mathematical functions. Programs run at those of `MathLibrary.native`. -/
def DoubleOf (_m : MathLibrary) : Type := Float

namespace DoubleOf

variable {m : MathLibrary}

def toFloat (x : DoubleOf m) : Float := x

instance instScalar : Scalar (DoubleOf m) := Scalar.doubles m

example : instScalar (m := .native) = Scalar.instDouble := rfl

/-- Integers are counted exactly, whatever the mathematical functions are. -/
instance instCountsExactly : Scalar.CountsExactly (DoubleOf m) where
  isFinite_ofInt := Double.isFinite_ofInt
  toInt64_ofInt {n} h := by
    have htruncate : Scalar.truncate (Scalar.ofInt n : DoubleOf m) = n :=
      Double.truncateFloat_eq (Double.isFinite_ofInt h) (Double.value_floatOfInt h)
    unfold Scalar.toInt64 Scalar.truncateWithin
    rw [htruncate]
    rw [abs_le] at h
    omega
  toInt64_le {x n} hn hle := by
    have htruncate : Scalar.truncate x ≤ n := Double.truncateFloat_le hn hle
    obtain ⟨hlow, -⟩ := abs_le.mp hn
    unfold Scalar.toInt64 Scalar.truncateWithin
    omega
  le_ofInt {a b} ha hb := by
    refine (Double.le_iff_value (Double.isFinite_ofInt ha) (Double.isFinite_ofInt hb)).trans ?_
    rw [Double.value_floatOfInt ha, Double.value_floatOfInt hb, Int.cast_le]
  lt_ofInt {a b} ha hb := by
    refine (Double.lt_iff_value (Double.isFinite_ofInt ha) (Double.isFinite_ofInt hb)).trans ?_
    rw [Double.value_floatOfInt ha, Double.value_floatOfInt hb, Int.cast_lt]
  beq_ofInt {a b} ha hb := by
    rw [Bool.eq_iff_iff, decide_eq_true_iff]
    refine (Double.beq_iff_value (Double.isFinite_ofInt ha) (Double.isFinite_ofInt hb)).trans ?_
    rw [Double.value_floatOfInt ha, Double.value_floatOfInt hb, Int.cast_inj]
  ofInt_add := Double.floatOfInt_add
  ofInt_sub := Double.floatOfInt_sub
  floor_div_mul := Double.floor_div_mul

instance instIsOrdered : Scalar.IsOrdered (DoubleOf m) where
  le_trans := Double.instIsOrdered.le_trans
  le_total := Double.instIsOrdered.le_total
  lt_iff := Double.instIsOrdered.lt_iff
  isNaN_of_le := Double.instIsOrdered.isNaN_of_le

end DoubleOf

instance Double.instCountsExactly : Scalar.CountsExactly Float := DoubleOf.instCountsExactly (m := .native)

end VisualEncoding
