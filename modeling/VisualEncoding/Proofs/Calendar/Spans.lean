import VisualEncoding.Proofs.Calendar.Stretches
import VisualEncoding.Proofs.Ticks.DoubleSteps
import VisualEncoding.Proofs.Ticks.Outward
import VisualEncoding.Proofs.Ticks.Steps

/-!
# Round ends for spans of time

Counted in milliseconds, near the present, a span is cut by a usual interval, by whole milliseconds or by a moderate
number of years (`forSpan_cases`), so that there are boundaries around every instant (`hasStretches_forSpan`). All that
this asks of the numbers is that they count integers exactly and that round steps are not much longer than the spans
that they cut (`Interval.CutsModerately`), which is so in exact arithmetic and in doubles whose logarithms and powers of
ten are right to a thousandth. Moving the ends of a span to round instants therefore succeeds at the prime meridian:
they become the boundaries next to them (`niceSpan_of_lt`), which widens the span (`niceSpan_widens`).
-/

namespace VisualEncoding

open Extended (finite)
open Scalar (CountsExactly)

namespace Calendar

variable {α : Type} [Scalar α] {count : ℕ}

/-- A number of milliseconds near the present. -/
structure IsNearby (u : α) : Prop where
  ge : Scalar.ofInt (-380000000000000) ≤ u
  le : u ≤ Scalar.ofInt 380000000000000

theorem IsNear.small {n : ℤ} (h : IsNear n) : |n| ≤ 2 ^ 53 := by
  have hlo := h.le
  have hhi := h.ge
  exact abs_le.mpr ⟨by omega, by omega⟩

theorem IsNear.nearby [CountsExactly α] {n : ℤ} (h : IsNear n) : IsNearby (Scalar.ofInt n : α) :=
  ⟨(CountsExactly.le_ofInt (by decide) h.small).mpr h.le, (CountsExactly.le_ofInt h.small (by decide)).mpr h.ge⟩

namespace Interval

variable {u v : α}

theorem every_eq (unit : TimeUnit) (n : ℤ) : every unit n = every unit (max 1 n.toNat : ℕ) := by
  have hstep : max 1 n.toNat = max 1 ((max 1 n.toNat : ℕ) : ℤ).toNat := by omega
  unfold every
  simp only [← hstep]

/-! ## How far apart boundaries are -/

variable (α) in
/-- Spans near the present are cut by moderate numbers of years and of milliseconds. -/
class CutsModerately : Prop where
  ofYears_step_le : ∀ {u v : α} {count : ℕ}, IsNearby u → IsNearby v → 1 ≤ count →
    (Scalar.ofInt yearLength : α) ≤ partLength u v count → (ofYears u v count).step ≤ 241000
  ofMillis_step_le : ∀ {u v : α} {count : ℕ}, IsNearby u → IsNearby v → 1 ≤ count →
    ¬ (Scalar.ofInt 1000 : α) ≤ partLength u v count → (ofMillis u v count).step ≤ 2500000000000000

/-- The intervals that spans near the present are cut by. -/
theorem forSpan_cases [CutsModerately α] (hu : IsNearby u) (hv : IsNearby v) (hcount : 1 ≤ count) :
    ((forSpan u v count).unit = .millisecond ∧ (forSpan u v count).step ≤ 2500000000000000) ∨
      (∃ w ∈ usual, forSpan u v count = every w.1 w.2.1) ∨
      ∃ k : ℕ, 0 < k ∧ k ≤ 241000 ∧ forSpan u v count = every .year k := by
  rcases forSpan_kinds u v count with ⟨hshort, heq⟩ | husual | ⟨hlong, heq⟩
  · rw [heq]
    exact .inl ⟨rfl, CutsModerately.ofMillis_step_le hu hv hcount hshort⟩
  · exact .inr (.inl husual)
  · exact .inr (.inr ⟨_, (ofYears u v count).step_pos, CutsModerately.ofYears_step_le hu hv hcount hlong,
      heq.trans (every_eq _ _)⟩)

/-- Whichever interval a span near the present is cut by has boundaries around every instant near the present. -/
theorem hasStretches_forSpan [CountsExactly α] [CutsModerately α] (hu : IsNearby u) (hv : IsNearby v)
    (hcount : 1 ≤ count) : (forSpan u v count).HasStretches α := by
  rcases forSpan_cases hu hv hcount with ⟨hunit, hstep⟩ | ⟨w, hw, heq⟩ | ⟨k, hpos, hle, heq⟩
  · exact hasStretches_of_millisecond hunit hstep
  · have hunit : ∀ w ∈ usual, w.1 ≠ .millisecond := by decide
    rw [heq]
    exact hasStretches_of_hasTile (hunit w hw) fun c hc => hasTile_of_mem_usual hw hc
  · rw [heq]
    exact hasStretches_of_hasTile nofun fun c hc => (countsMonths_years hpos hle).hasTile hc

/-! ## Steps in exact arithmetic -/

/-- Near the present numbers are finite. -/
theorem exists_of_isNearby {a : Extended} (h : IsNearby a) : ∃ x : ℝ, a = finite x ∧ |x| ≤ 380000000000000 := by
  have hge := h.ge
  have hle := h.le
  match a, hge, hle with
  | finite x, hge, hle =>
    rw [Extended.ofInt_eq, Extended.finite_le] at hge hle
    exact ⟨x, rfl, abs_le.mpr ⟨by exact_mod_cast hge, by exact_mod_cast hle⟩⟩
  | .infinite false, _, ⟨_, hx, _, hy, hxy⟩ =>
    cases hx
    cases hy
    exact absurd hxy (not_le.mpr (EReal.coe_lt_top _))
  | .infinite true, ⟨_, hx, _, hy, hxy⟩, _ =>
    cases hx
    cases hy
    exact absurd hxy (not_le.mpr (EReal.bot_lt_coe _))

/-- The parts of a span without length have none either. -/
theorem partLength_self (x : ℝ) (count : ℕ) : partLength (finite x) (finite x) count = finite 0 := by
  have hparts : (((max count 1 : ℕ) : ℤ) : ℝ) ≠ 0 := by
    have hpos : 0 < max count 1 := Nat.lt_of_lt_of_le Nat.one_pos (Nat.le_max_right _ _)
    exact_mod_cast hpos.ne'
  unfold partLength
  rw [Extended.finite_sub, sub_self, Extended.abs_zero, Extended.ofInt_eq, Extended.finite_div hparts, zero_div]

/-- A number of parts that is rounded is not more than one above what it is rounded from. -/
theorem step_every_le {unit : TimeUnit} {z : ℝ} {n : ℕ} (hpos : 0 < z) (hle : z + 1 ≤ n) (hn : n ≤ 2 ^ 53) :
    (every unit (Scalar.toInt64 (Scalar.round (finite z)))).step ≤ n := by
  have hfloor : (⌊z + 1 / 2⌋ : ℝ) ≤ z + 1 / 2 := Int.floor_le _
  have hnonneg : 0 ≤ ⌊z + 1 / 2⌋ := Int.floor_nonneg.mpr (by linarith)
  have hfew : ⌊z + 1 / 2⌋ ≤ n := by
    have hreal : (⌊z + 1 / 2⌋ : ℝ) ≤ n := by linarith
    exact_mod_cast hreal
  have hone : (1 : ℝ) ≤ n := by linarith
  have hone' : 1 ≤ n := by exact_mod_cast hone
  rw [Extended.round_of_pos hpos, Extended.toInt64_intCast (by omega) (by omega)]
  exact max_le hone' (by omega)

instance instCutsModerately : CutsModerately Extended where
  ofYears_step_le := by
    intro a b count ha hb hcount hlong
    obtain ⟨u, rfl, hu⟩ := exists_of_isNearby ha
    obtain ⟨v, rfl, hv⟩ := exists_of_isNearby hb
    have hyear : ((yearLength : ℤ) : ℝ) = 31536000000 := by
      unfold yearLength
      norm_num
    have huv : u ≠ v := by
      rintro rfl
      rw [partLength_self, Extended.ofInt_eq, Extended.finite_le, hyear] at hlong
      norm_num at hlong
    have hdiffer : u / 31536000000 ≠ v / 31536000000 := fun h => huv ((div_left_inj' (by norm_num)).mp h)
    have hspan : |v / 31536000000 - u / 31536000000| ≤ 24099.6 := by
      rw [abs_le] at hu hv ⊢
      constructor <;> linarith [hu.1, hu.2, hv.1, hv.2]
    obtain ⟨j, hstep, hle⟩ := Ticks.abs_step_eq_rung hdiffer hcount
    unfold ofYears
    dsimp only
    rw [Extended.ofInt_eq, hyear, Extended.finite_div (by norm_num), Extended.finite_div (by norm_num), hstep]
    exact step_every_le (Ticks.rung_pos j) (by push_cast; linarith) (by decide)
  ofMillis_step_le := by
    intro a b count ha hb hcount _
    obtain ⟨u, rfl, hu⟩ := exists_of_isNearby ha
    obtain ⟨v, rfl, hv⟩ := exists_of_isNearby hb
    have hsize : ∃ z, Scalar.abs (Ticks.step (finite u) (finite v) count) = finite z ∧ z ≤ 1520000000000000 := by
      rcases eq_or_ne u v with rfl | huv
      · exact ⟨0, by rw [Ticks.step_self hcount, Extended.abs_zero], by norm_num⟩
      · obtain ⟨j, hstep, hle⟩ := Ticks.abs_step_eq_rung huv hcount
        refine ⟨_, hstep, hle.trans ?_⟩
        have hspan := abs_sub v u
        linarith
    obtain ⟨z, hz, hle⟩ := hsize
    unfold ofMillis
    rw [hz, Extended.one_eq, Extended.greatest_finite]
    refine step_every_le (lt_max_of_lt_right one_pos) ?_ (by decide)
    push_cast
    have hmax : max z 1 ≤ 1520000000000000 := max_le hle (by norm_num)
    linarith

/-! ## Steps in doubles -/

section

open Double (value)

variable {m : MathLibrary} {u v : DoubleOf m} {count d : ℕ}

theorem value_of_isNearby (hu : IsNearby u) :
    u.toFloat.isFinite = true ∧ |value u.toFloat| ≤ 380000000000000 := by
  have hge : Decimal.floatOfInt (-380000000000000) ≤ u.toFloat := hu.ge
  have hle : u.toFloat ≤ Decimal.floatOfInt 380000000000000 := hu.le
  have hfinite : u.toFloat.isFinite = true := by
    rcases Double.cases_of_le (Double.isFinite_ofInt (by decide)) hge with hinfinite | ⟨hfinite, -⟩
    · rw [← Double.ofUnpacked_unpack u.toFloat, hinfinite] at hle
      exact absurd hle (by decide)
    · exact hfinite
  rw [Double.le_iff_value (Double.isFinite_ofInt (by decide)) hfinite, Double.value_floatOfInt (by decide)] at hge
  rw [Double.le_iff_value hfinite (Double.isFinite_ofInt (by decide)), Double.value_floatOfInt (by decide)] at hle
  exact ⟨hfinite, abs_le.mpr ⟨by exact_mod_cast hge, by exact_mod_cast hle⟩⟩

/-- A moderate number is rounded to a moderate one. -/
theorem step_every_round_le {unit : TimeUnit} {x : DoubleOf m} (hd : d ≤ 10) (hx : Ticks.IsModerate d x.toFloat) :
    (every unit (Scalar.toInt64 (Scalar.round x))).step ≤ 10010 * 10 ^ d + 1 := by
  have hnear := (Double.isNearest_roundFloat hx.isFinite).near
  have hnonneg := hx.nonneg
  have hle := hx.le
  have hfits := Ticks.ten_pow_le hd
  obtain ⟨hlow, hhigh⟩ := abs_le.mp hnear
  have hbounds : -1 ≤ Decimal.roundFloat x.toFloat ∧ Decimal.roundFloat x.toFloat ≤ 10010 * 10 ^ d + 1 := by
    have hlow' : (-1 : ℚ) ≤ Decimal.roundFloat x.toFloat := by linarith
    have hhigh' : (Decimal.roundFloat x.toFloat : ℚ) ≤ 10010 * 10 ^ d + 1 := by linarith
    exact ⟨by exact_mod_cast hlow', by exact_mod_cast hhigh'⟩
  obtain ⟨hfinite, hvalue⟩ := Double.value_wholeFloat_roundHalfUp hx.isFinite (abs_le.mpr ⟨by omega, by omega⟩)
  have htruncate : Scalar.truncate (Scalar.round x) = Decimal.roundFloat x.toFloat :=
    Double.truncateFloat_eq hfinite hvalue
  have hcast : ((10010 * 10 ^ d + 1 : ℕ) : ℤ) = 10010 * 10 ^ d + 1 := by push_cast; rfl
  unfold every Scalar.toInt64 Scalar.truncateWithin
  dsimp only
  rw [htruncate]
  omega

theorem isModerate_greatest {x : DoubleOf m} (hx : Ticks.IsModerate d x.toFloat) :
    Ticks.IsModerate d (Scalar.greatest x 1).toFloat := by
  have hpow : (1 : ℚ) ≤ 10 ^ d := one_le_pow₀ (by norm_num)
  have hone : Ticks.IsModerate d (Decimal.floatOfInt 1) :=
    ⟨Double.isFinite_ofInt (by decide), Double.value_one.symm ▸ zero_le_one, Double.value_one.symm ▸ by linarith⟩
  unfold Scalar.greatest
  split
  · exact hone
  split
  · exact hx
  split
  · exact hone
  · exact hx

theorem moderate_lt_overflow {q : ℚ} (hq : |q| ≤ 10 ^ 15) : |q| < Double.overflow :=
  hq.trans_lt (Double.ten_pow_lt_overflow (by decide))

/-- The length of a span near the present is finite, and so are its parts. -/
theorem partLength_bounds {u v : DoubleOf m} (hu : u.toFloat.isFinite = true) (hv : v.toFloat.isFinite = true)
    (hless : |value v.toFloat - value u.toFloat| ≤ 10 ^ 15) (hcount : 1 ≤ count) :
    (Scalar.abs (v - u) / Scalar.ofInt count).toFloat.isFinite = true ∧
      value (Scalar.abs (v - u) / Scalar.ofInt count).toFloat ≤ |value (v - u).toFloat| := by
  have hlength : (v - u).toFloat.isFinite = true := (Double.isRounded_sub hv hu (moderate_lt_overflow hless)).isFinite
  obtain ⟨hfinite, hvalue⟩ := Ticks.value_abs hlength
  obtain ⟨hpart, -, hle⟩ := Double.div_count hfinite (by rw [hvalue]; exact abs_nonneg _) (n := count) (by omega)
  exact ⟨hpart, hle.trans_eq hvalue⟩

/-- Numbers of milliseconds are not rounded to more years. -/
theorem yearCount_bounds {years : ℕ} {x : DoubleOf m} (hyears : years ≤ 10 ^ 15) (hfinite : x.toFloat.isFinite = true)
    (hbound : |value x.toFloat| ≤ 31536000000 * years) :
    (x / Scalar.ofInt yearLength).toFloat.isFinite = true ∧
      |value (x / Scalar.ofInt yearLength).toFloat| ≤ years := by
  have hsmall : |(yearLength : ℤ)| ≤ 2 ^ 53 := by decide
  have hyear : value (Decimal.floatOfInt yearLength) = 31536000000 := by
    rw [Double.value_floatOfInt hsmall]
    unfold yearLength
    norm_num
  have hquotient : |value x.toFloat / 31536000000| ≤ years := by
    rw [abs_div, abs_of_pos (by norm_num : (0 : ℚ) < 31536000000), div_le_iff₀ (by norm_num), mul_comm]
    exact hbound
  have hrounded := Double.isRounded_div hfinite (Double.isFinite_ofInt hsmall) (by rw [hyear]; norm_num)
    (by rw [hyear]; exact moderate_lt_overflow (hquotient.trans (by exact_mod_cast hyears)))
  rw [hyear] at hrounded
  exact ⟨hrounded.isFinite, hrounded.abs_value_le (hyears.trans (by decide)) hquotient⟩

/-- Years between numbers of milliseconds that count a moderate number of years. -/
theorem step_ofYears_le [m.IsAccurate] {years : ℕ} (hd : d ≤ 10) (hyears : 2 * years ≤ 9000 * 10 ^ d)
    (hu : u.toFloat.isFinite = true) (hubound : |value u.toFloat| ≤ 31536000000 * years)
    (hv : v.toFloat.isFinite = true) (hvbound : |value v.toFloat| ≤ 31536000000 * years) (hcount : 1 ≤ count) :
    (ofYears u v count).step ≤ 10010 * 10 ^ d + 1 := by
  have hfits := Ticks.ten_pow_le hd
  have hyears' : (2 * years : ℤ) ≤ 9000 * 10 ^ d := by exact_mod_cast hyears
  obtain ⟨hu', hubound'⟩ := yearCount_bounds (by omega) hu hubound
  obtain ⟨hv', hvbound'⟩ := yearCount_bounds (by omega) hv hvbound
  have hspan : |value (v / Scalar.ofInt yearLength).toFloat - value (u / Scalar.ofInt yearLength).toFloat|
      ≤ (2 * years : ℕ) := by
    push_cast
    exact (abs_sub _ _).trans (by linarith)
  have hless : |value (v / Scalar.ofInt yearLength).toFloat - value (u / Scalar.ofInt yearLength).toFloat| ≤ 10 ^ 15 :=
    hspan.trans (by exact_mod_cast (by omega : 2 * years ≤ 10 ^ 15))
  obtain ⟨-, hpart⟩ := partLength_bounds hu' hv' hless hcount
  have hdifference := (Double.isRounded_sub hv' hu' (moderate_lt_overflow hless)).abs_value_le (by omega) hspan
  have hbound : ((2 * years : ℕ) : ℚ) ≤ 9000 * 10 ^ d := by exact_mod_cast hyears
  exact step_every_round_le hd (Ticks.isModerate_abs_step hd hu' hv' (moderate_lt_overflow hless) hcount
    (hpart.trans (hdifference.trans hbound)))

/-- Spans near the present are cut moderately on every platform with accurate functions. -/
instance instCutsModeratelyDoubleOf [m.IsAccurate] : CutsModerately (DoubleOf m) where
  ofYears_step_le := by
    intro u v count hu hv hcount _
    obtain ⟨hu', hubound⟩ := value_of_isNearby hu
    obtain ⟨hv', hvbound⟩ := value_of_isNearby hv
    -- within twelve thousand years of 1970
    have hstep := step_ofYears_le (d := 1) (show 1 ≤ 10 by decide) (show 2 * 12050 ≤ 9000 * 10 ^ 1 by decide) hu'
      (hubound.trans (by norm_num)) hv' (hvbound.trans (by norm_num)) hcount
    exact hstep.trans (by decide)
  ofMillis_step_le := by
    intro u v count hu hv hcount hshort
    obtain ⟨hu', hubound⟩ := value_of_isNearby hu
    obtain ⟨hv', hvbound⟩ := value_of_isNearby hv
    have hless : |value v.toFloat - value u.toFloat| ≤ 10 ^ 15 := (abs_sub _ _).trans (by linarith)
    obtain ⟨hfinite, -⟩ := partLength_bounds hu' hv' hless hcount
    have hpart : value (Scalar.abs (v - u) / Scalar.ofInt count).toFloat ≤ 9000 * 10 ^ 0 := by
      have hlength : partLength u v count = Scalar.abs (v - u) / Scalar.ofInt count := by
        unfold partLength
        rw [max_eq_left hcount]
      have hthousand : Scalar.ofInt 1000 ≤ partLength u v count ↔
          1000 ≤ value (Scalar.abs (v - u) / Scalar.ofInt count).toFloat := by
        rw [hlength]
        refine (Double.le_iff_value (Double.isFinite_ofInt (n := 1000) (by decide)) hfinite).trans ?_
        rw [Double.value_floatOfInt (by decide)]
        norm_cast
      linarith [not_le.mp (mt hthousand.mpr hshort)]
    have hmoderate := Ticks.isModerate_abs_step (by decide) hu' hv' (moderate_lt_overflow hless) hcount hpart
    exact (step_every_round_le (by decide) (isModerate_greatest hmoderate)).trans (by decide)

end

end Interval

/-! ## Spans -/

section

variable [CountsExactly α] {a b : ℤ}

theorem niceSpan_of_floor_ceil {zone : Zone} {lo hi : α} (hab : a < b) (ha : |a| ≤ 2 ^ 53) (hb : |b| ≤ 2 ^ 53)
    (hfloor : (Interval.forSpan (Scalar.ofInt a : α) (Scalar.ofInt b) count).floor zone (Scalar.ofInt a) = .ok lo)
    (hceil : (Interval.forSpan (Scalar.ofInt a : α) (Scalar.ofInt b) count).ceil zone (Scalar.ofInt b) = .ok hi) :
    niceSpan zone (Scalar.ofInt a : α) (Scalar.ofInt b) count = .ok (lo, hi) := by
  rw [niceSpan_of_sorted (CountsExactly.isFinite_ofInt ha) (CountsExactly.isFinite_ofInt hb), hfloor, hceil]
  · rfl
  · rw [CountsExactly.lt_ofInt hb ha]
    exact hab.not_gt
  · rw [CountsExactly.beq_ofInt ha hb]
    exact decide_eq_false hab.ne

theorem niceSpan_ofInt_self (zone : Zone) (ha : |a| ≤ 2 ^ 53) :
    niceSpan zone (Scalar.ofInt a : α) (Scalar.ofInt a) count = .ok (Scalar.ofInt a, Scalar.ofInt a) :=
  niceSpan_of_beq fun _ => (CountsExactly.beq_ofInt ha ha).trans (decide_eq_true rfl)

/-- Nicing a span of whole milliseconds from its other end. -/
theorem niceSpan_ofInt_swap (zone : Zone) (hab : a < b) (ha : |a| ≤ 2 ^ 53) (hb : |b| ≤ 2 ^ 53) :
    niceSpan zone (Scalar.ofInt b : α) (Scalar.ofInt a) count
      = (niceSpan zone (Scalar.ofInt a : α) (Scalar.ofInt b) count).map Prod.swap :=
  niceSpan_swap zone ((CountsExactly.lt_ofInt ha hb).mpr hab)
    (fun h => hab.not_gt ((CountsExactly.lt_ofInt hb ha).mp h)) count

variable [Interval.CutsModerately α]

/-- The ends of a span near the present become the boundaries next to them. -/
theorem niceSpan_of_lt (hab : a < b) (ha : IsNear a) (hb : IsNear b) (hcount : 1 ≤ count) :
    ∃ a' b' : ℤ, niceSpan Zone.utc (Scalar.ofInt a : α) (Scalar.ofInt b) count
      = .ok (Scalar.ofInt a', Scalar.ofInt b') ∧ a' ≤ a ∧ b ≤ b' := by
  have hstretches : (Interval.forSpan (Scalar.ofInt a : α) (Scalar.ofInt b) count).HasStretches α :=
    Interval.hasStretches_forSpan ha.nearby hb.nearby hcount
  have hlo := ha.le
  have hhi := hb.ge
  obtain ⟨a', _, hstretch, hle, hlt⟩ := hstretches a (by omega) (by omega)
  obtain ⟨_, b', hstretch', hle', hlt'⟩ := hstretches (b - 1) (by omega) (by omega)
  obtain ⟨hfloor, -⟩ := hstretch.isGreatest_floor hle hlt
  obtain ⟨hceil, -⟩ := hstretch'.isLeast_ceil (show _ < b by omega) (by omega)
  exact ⟨a', b', niceSpan_of_floor_ceil hab ha.small hb.small hfloor hceil, hle, by omega⟩

theorem niceSpan_of_gt (hab : b < a) (ha : IsNear a) (hb : IsNear b) (hcount : 1 ≤ count) :
    ∃ a' b' : ℤ, niceSpan Zone.utc (Scalar.ofInt a : α) (Scalar.ofInt b) count
      = .ok (Scalar.ofInt a', Scalar.ofInt b') ∧ b' ≤ b ∧ a ≤ a' := by
  obtain ⟨b', a', hnice, hle, hge⟩ := niceSpan_of_lt (α := α) hab hb ha hcount
  refine ⟨a', b', ?_, hle, hge⟩
  rw [niceSpan_ofInt_swap _ hab hb.small ha.small, hnice]
  rfl

end

/-- Moving the ends of a span near the present to round instants succeeds and widens the span. -/
theorem niceSpan_widens {a b : ℤ} {count : ℕ} (ha : IsNear a) (hb : IsNear b) (hcount : 1 ≤ count) :
    ∃ a' b' : ℝ, niceSpan Zone.utc (finite a) (finite b) count = .ok (finite a', finite b') ∧
      Ticks.Widens a b a' b' := by
  rcases Int.lt_trichotomy a b with hlt | rfl | hgt
  · obtain ⟨a', b', hnice, hle, hge⟩ := niceSpan_of_lt (α := Extended) hlt ha hb hcount
    exact ⟨a', b', hnice, .inl ⟨by exact_mod_cast hlt.le, by exact_mod_cast hle, by exact_mod_cast hge⟩⟩
  · exact ⟨a, a, niceSpan_self _ _ _, Ticks.Widens.refl _ _⟩
  · obtain ⟨a', b', hnice, hle, hge⟩ := niceSpan_of_gt (α := Extended) hgt ha hb hcount
    exact ⟨a', b', hnice, .inr ⟨by exact_mod_cast hgt.le, by exact_mod_cast hle, by exact_mod_cast hge⟩⟩

end Calendar

end VisualEncoding
