import Mathlib.Analysis.SpecialFunctions.Log.Base
import Mathlib.Analysis.SpecialFunctions.Pow.Real
import Mathlib.Data.EReal.Operations
import VisualEncoding.Decimal.Binary32
import VisualEncoding.Scalar.Double
import VisualEncoding.Scalar.Logarithm

/-!
# Exact arithmetic

`Extended` is what doubles would be if nothing were rounded: the real numbers, the two infinities, and an
undefined number that is the result of operations without an answer. Operations on infinite and undefined
numbers follow IEEE 754, with one unsigned zero. A theorem about exact arithmetic speaks of the definitions
that programs run with, at this type.
-/

namespace VisualEncoding

/-- A real number, an infinity or the undefined number. -/
inductive Extended where
  | finite (x : ℝ)
  | infinite (negative : Bool)
  | undefined

namespace Extended

open Classical in
/-- Whether a real number is negative. -/
noncomputable def isNegative (x : ℝ) : Bool := decide (x < 0)

/-- The place on the line of the numbers that are ordered. -/
noncomputable def place? : Extended → Option EReal
  | finite x => some x
  | infinite negative => some (if negative then ⊥ else ⊤)
  | undefined => none

/-! ## Arithmetic -/

def neg : Extended → Extended
  | finite x => finite (-x)
  | infinite negative => infinite !negative
  | undefined => undefined

noncomputable def add : Extended → Extended → Extended
  | finite x, finite y => finite (x + y)
  | infinite s, infinite t => if s = t then infinite s else undefined
  | infinite s, finite _ | finite _, infinite s => infinite s
  | undefined, _ | _, undefined => undefined

open Classical in
noncomputable def mul : Extended → Extended → Extended
  | finite x, finite y => finite (x * y)
  | infinite s, infinite t => infinite (s ^^ t)
  | infinite s, finite x | finite x, infinite s =>
    if x = 0 then undefined else infinite (s ^^ isNegative x)
  | undefined, _ | _, undefined => undefined

open Classical in
/-- Division; a number other than zero divided by zero is infinite. -/
noncomputable def div : Extended → Extended → Extended
  | finite x, finite y =>
    if y = 0 then if x = 0 then undefined else infinite (isNegative x) else finite (x / y)
  | finite _, infinite _ => finite 0
  | infinite s, finite y => infinite (s ^^ isNegative y)
  | infinite _, infinite _ => undefined
  | undefined, _ | _, undefined => undefined

open Classical in
noncomputable def sqrt : Extended → Extended
  | finite x => if x < 0 then undefined else finite (Real.sqrt x)
  | infinite false => infinite false
  | infinite true | undefined => undefined

open Classical in
/-- The logarithm to a base greater than one. -/
noncomputable def logb (base : ℝ) : Extended → Extended
  | finite x => if x < 0 then undefined else if x = 0 then infinite true else finite (Real.logb base x)
  | infinite false => infinite false
  | infinite true | undefined => undefined

/-- The greatest whole number that is not above. -/
noncomputable def floor : Extended → Extended
  | finite x => finite ⌊x⌋
  | x => x

/-- The least whole number that is not below. -/
noncomputable def ceil : Extended → Extended
  | finite x => finite ⌈x⌉
  | x => x

open Classical in
/-- The nearest whole number, halves away from zero. -/
noncomputable def round : Extended → Extended
  | finite x => finite (if x < 0 then -⌊-x + 1 / 2⌋ else ⌊x + 1 / 2⌋ : ℤ)
  | x => x

open Classical in
/-- The whole part, toward zero. -/
noncomputable def truncate : Extended → Int
  | finite x => if x < 0 then ⌈x⌉ else ⌊x⌋
  | infinite negative => if negative then -2 ^ 1024 else 2 ^ 1024
  | undefined => 0

open Classical in
/-- A real number to the power of another. A negative base has whole powers only. -/
noncomputable def powFinite (x y : ℝ) : Extended :=
  if y = 0 then finite 1
  else if x = 0 then if y < 0 then infinite false else finite 0
  else if 0 < x then finite (x ^ y)
  else if (⌊y⌋ : ℝ) = y then finite (x ^ ⌊y⌋)
  else undefined

open Classical in
/-- Powers. One to any power and any number to the power of zero are one, the undefined one included. -/
noncomputable def pow : Extended → Extended → Extended
  | finite x, finite y => powFinite x y
  | finite x, infinite s =>
    if |x| = 1 then finite 1 else if 1 < |x| ↔ s = false then infinite false else finite 0
  | infinite s, finite y =>
    if y = 0 then finite 1
    else if y < 0 then finite 0
    else infinite (s && decide (∃ k : ℤ, y = 2 * k + 1))
  | infinite _, infinite s => if s then finite 0 else infinite false
  | finite x, undefined => if x = 1 then finite 1 else undefined
  | undefined, finite y => if y = 0 then finite 1 else undefined
  | undefined, _ | _, undefined => undefined

/-! ## Texts -/

open Classical in
/-- A ratio on the same side of every double, and of every middle between two, as the magnitude of a
number: multiples of `2 ^ -1200` stay, and what lies between two of them becomes their middle. -/
noncomputable def nearbyRatio (x : ℝ) : Nat × Nat :=
  (2 * ⌊|x| * 2 ^ 1200⌋₊ + (if (⌊|x| * 2 ^ 1200⌋₊ : ℝ) = |x| * 2 ^ 1200 then 0 else 1), 2 ^ 1201)

/-- The nearest double. -/
noncomputable def toDouble : Extended → Float
  | finite x =>
    let magnitude := Decimal.nearestRatio (nearbyRatio x).1 (nearbyRatio x).2
    if isNegative x then -magnitude else magnitude
  | infinite negative => Decimal.Numeral.toFloat (.infinite negative)
  | undefined => Decimal.Numeral.toFloat .notANumber

/-- The nearest number in single precision. -/
noncomputable def toSingle : Extended → Float32
  | finite x =>
    let bits := Decimal.binary32.nearestRatio (nearbyRatio x).1 (nearbyRatio x).2
    let magnitude := Float32.ofBits (UInt32.ofNat bits)
    if isNegative x then -magnitude else magnitude
  | infinite negative => Decimal.Numeral.toFloat32 (.infinite negative)
  | undefined => Decimal.Numeral.toFloat32 .notANumber

/-- The number that a numeral names, if it names one. -/
noncomputable def ofNumeral? : Decimal.Numeral → Option Extended
  | .finite negative digits exponent =>
    let magnitude : ℝ := digits * 10 ^ exponent
    some (finite (if negative then -magnitude else magnitude))
  | .infinite negative => some (infinite negative)
  | .notANumber => none

/-! ## The scalar instance -/

open Classical in
noncomputable instance instScalar : Scalar Extended where
  add := add
  sub a b := add a (neg b)
  mul := mul
  div := div
  neg := neg
  lt a b := ∃ x ∈ a.place?, ∃ y ∈ b.place?, x < y
  le a b := ∃ x ∈ a.place?, ∃ y ∈ b.place?, x ≤ y
  beq a b := decide (∃ x ∈ a.place?, x ∈ b.place?)
  decLt _ _ := inferInstance
  decLe _ _ := inferInstance
  ofInt n := finite n
  truncate := truncate
  floor := floor
  ceil := ceil
  round := round
  isNaN x := x.place?.isNone
  isFinite
    | finite _ => true
    | _ => false
  sortsBefore a b := decide (∃ x ∈ a.place?, ∃ y ∈ b.place?, x ≤ y)
  sqrt := sqrt
  log10 := logb 10
  log2 := logb 2
  ln := logb (Real.exp 1)
  pow := pow
  euler := finite (Real.exp 1)
  text x := Decimal.Layout.plain.text x.toDouble
  ofNumeral? := ofNumeral?
  toSingle := toSingle

variable {x y : ℝ} {a b c : Extended}

/-! ## Finite numbers -/

@[simp] theorem ofInt_eq (n : Int) : (Scalar.ofInt n : Extended) = finite n := rfl

@[simp] theorem ofNat_eq (n : Nat) : (OfNat.ofNat n : Extended) = finite (n : ℤ) := rfl

@[simp] theorem finite_add : finite x + finite y = finite (x + y) := rfl

@[simp] theorem finite_sub : finite x - finite y = finite (x - y) := by
  show finite (x + -y) = finite (x - y)
  rw [sub_eq_add_neg]

@[simp] theorem finite_mul : finite x * finite y = finite (x * y) := rfl

@[simp] theorem neg_finite : -finite x = finite (-x) := rfl

theorem zero_eq : (0 : Extended) = finite 0 := by
  rw [ofNat_eq, Nat.cast_zero, Int.cast_zero]

theorem one_eq : (1 : Extended) = finite 1 := by
  rw [ofNat_eq, Nat.cast_one, Int.cast_one]

theorem finite_div (h : y ≠ 0) : finite x / finite y = finite (x / y) := if_neg h

theorem neg_neg (a : Extended) : - -a = a := by
  cases a with
  | finite x => rw [neg_finite, neg_finite, InvolutiveNeg.neg_neg]
  | infinite s => cases s <;> rfl
  | undefined => rfl

theorem half_eq : (1 / 2 : Extended) = finite (1 / 2) := by
  rw [ofNat_eq, ofNat_eq, finite_div (by norm_num)]
  norm_num

theorem add_comm (a b : Extended) : a + b = b + a := by
  cases a with
  | finite x =>
    cases b with
    | finite y => exact congrArg finite (AddCommMagma.add_comm x y)
    | _ => rfl
  | infinite s =>
    cases b with
    | infinite t => cases s <;> cases t <;> rfl
    | _ => rfl
  | undefined => cases b <;> rfl

@[simp] theorem finite_lt : finite x < finite y ↔ x < y := by
  constructor
  · rintro ⟨_, ⟨⟩, _, ⟨⟩, h⟩
    exact EReal.coe_lt_coe_iff.mp h
  · intro h
    exact ⟨_, rfl, _, rfl, EReal.coe_lt_coe_iff.mpr h⟩

@[simp] theorem finite_le : finite x ≤ finite y ↔ x ≤ y := by
  constructor
  · rintro ⟨_, ⟨⟩, _, ⟨⟩, h⟩
    exact EReal.coe_le_coe_iff.mp h
  · intro h
    exact ⟨_, rfl, _, rfl, EReal.coe_le_coe_iff.mpr h⟩

@[simp] theorem finite_beq : (finite x == finite y) = true ↔ x = y := by
  show decide _ = true ↔ _
  rw [decide_eq_true_eq]
  constructor
  · rintro ⟨_, ⟨⟩, h⟩
    exact (EReal.coe_injective (Option.some.inj h)).symm
  · rintro rfl
    exact ⟨_, rfl, rfl⟩

@[simp] theorem isFinite_finite : Scalar.isFinite (finite x) = true := rfl

@[simp] theorem isNaN_finite : Scalar.isNaN (finite x) = false := rfl

@[simp] theorem floor_finite : Scalar.floor (finite x) = finite ⌊x⌋ := rfl

@[simp] theorem ceil_finite : Scalar.ceil (finite x) = finite ⌈x⌉ := rfl

theorem isFinite_iff : Scalar.isFinite a = true ↔ ∃ x, a = finite x := by
  cases a with
  | finite x => exact ⟨fun _ => ⟨x, rfl⟩, fun _ => rfl⟩
  | infinite | undefined => exact ⟨fun h => (nomatch h), fun ⟨_, h⟩ => (nomatch h)⟩

theorem sub_self_cases (a : Extended) : a - a = finite 0 ∨ a - a = undefined := by
  cases a with
  | finite x => exact Or.inl (by rw [finite_sub, sub_self])
  | infinite s => exact Or.inr (by cases s <;> rfl)
  | undefined => exact Or.inr rfl

theorem least_finite (x y : ℝ) : Scalar.least (finite x) (finite y) = finite (min x y) := by
  unfold Scalar.least
  simp only [isNaN_finite, if_neg Bool.false_ne_true, finite_lt]
  split
  next h => rw [min_eq_right h.le]
  next h => rw [min_eq_left (not_lt.mp h)]

theorem greatest_finite (x y : ℝ) :
    Scalar.greatest (finite x) (finite y) = finite (max x y) := by
  unfold Scalar.greatest
  simp only [isNaN_finite, if_neg Bool.false_ne_true, finite_lt]
  split
  next h => rw [max_eq_right h.le]
  next h => rw [max_eq_left (not_lt.mp h)]

/-! ## Numbers that are finite -/

@[simp] theorem isFinite_neg (a : Extended) : Scalar.isFinite (-a) = Scalar.isFinite a := by
  cases a <;> rfl

@[simp] theorem isFinite_add (a b : Extended) :
    Scalar.isFinite (a + b) = (Scalar.isFinite a && Scalar.isFinite b) := by
  cases a with
  | infinite s =>
    cases b with
    | infinite t => cases s <;> cases t <;> rfl
    | _ => rfl
  | _ => cases b <;> rfl

@[simp] theorem isFinite_sub (a b : Extended) :
    Scalar.isFinite (a - b) = (Scalar.isFinite a && Scalar.isFinite b) := by
  show Scalar.isFinite (a + -b) = _
  rw [isFinite_add, isFinite_neg]

@[simp] theorem isFinite_mul (a b : Extended) :
    Scalar.isFinite (a * b) = (Scalar.isFinite a && Scalar.isFinite b) := by
  cases a with
  | finite x =>
    cases b with
    | infinite s =>
      show Scalar.isFinite (if x = 0 then undefined else infinite _) = _
      split <;> rfl
    | _ => rfl
  | infinite s =>
    cases b with
    | finite x =>
      show Scalar.isFinite (if x = 0 then undefined else infinite _) = _
      split <;> rfl
    | _ => rfl
  | undefined => cases b <;> rfl

/-- Only finite numbers have a finite part. -/
theorem isFinite_of_div (h : Scalar.isFinite (a / b) = true) : Scalar.isFinite a = true := by
  cases a with
  | finite x => rfl
  | infinite s => cases b <;> nomatch h
  | undefined => cases b <;> nomatch h

/-- Only positive numbers have a finite logarithm. -/
theorem isFinite_logb {base : ℝ} (h : Scalar.isFinite (logb base a) = true) : ∃ x, 0 < x ∧ a = finite x := by
  cases a with
  | finite x =>
    refine ⟨x, ?_, rfl⟩
    change Scalar.isFinite (if x < 0 then _ else if x = 0 then _ else _) = true at h
    by_cases hneg : x < 0
    · rw [if_pos hneg] at h
      nomatch h
    · by_cases hzero : x = 0
      · rw [if_neg hneg, if_pos hzero] at h
        nomatch h
      · exact lt_of_le_of_ne (not_lt.mp hneg) (Ne.symm hzero)
  | infinite s => cases s <;> nomatch h
  | undefined => nomatch h

theorem isFinite_log {base : Extended} (h : Scalar.isFinite (Scalar.log base a) = true) :
    ∃ x, 0 < x ∧ a = finite x := by
  unfold Scalar.log at h
  split at h
  · exact isFinite_logb h
  · split at h
    · exact isFinite_logb h
    · split at h
      · exact isFinite_logb h
      · exact isFinite_logb (isFinite_of_div h)

/-! ## Order -/

theorem place?_eq_none_iff : a.place? = none ↔ Scalar.isNaN a = true := Option.isNone_iff_eq_none.symm

theorem place?_injective (h : a.place? = b.place?) : a = b := by
  cases a with
  | finite x =>
    cases b with
    | finite y => rw [EReal.coe_injective (Option.some.inj h)]
    | infinite s => cases s <;> exact absurd (Option.some.inj h) (by simp)
    | undefined => nomatch h
  | infinite s =>
    cases b with
    | finite y => cases s <;> exact absurd (Option.some.inj h) (by simp)
    | infinite t => cases s <;> cases t <;> first | rfl | exact absurd (Option.some.inj h) (by simp)
    | undefined => nomatch h
  | undefined =>
    cases b with
    | undefined => rfl
    | finite | infinite => nomatch h

theorem le_of_lt (h : a < b) : a ≤ b := by
  obtain ⟨x, hx, y, hy, h⟩ := h
  exact ⟨x, hx, y, hy, h.le⟩

theorem not_le_of_lt (h : a < b) : ¬ b ≤ a := by
  rintro ⟨y, hy, x, hx, h'⟩
  obtain ⟨x', hx', y', hy', h⟩ := h
  cases hx.symm.trans hx'
  cases hy.symm.trans hy'
  exact h.not_ge h'

theorem lt_asymm (h : a < b) : ¬ b < a := by
  rintro ⟨y, hy, x, hx, h'⟩
  obtain ⟨x', hx', y', hy', h⟩ := h
  cases hx.symm.trans hx'
  cases hy.symm.trans hy'
  exact h.asymm h'

instance : Std.Asymm (α := Extended) (· < ·) := ⟨fun _ _ => lt_asymm⟩

/-- Numbers that are ordered have a place on the line. -/
theorem exists_place? (h : Scalar.isNaN a = false) : ∃ x, a.place? = some x := by
  refine Option.ne_none_iff_exists'.mp ?_
  rw [Ne, place?_eq_none_iff, h]
  exact Bool.false_ne_true

theorem isNaN_of_lt (h : a < b) : Scalar.isNaN a = false ∧ Scalar.isNaN b = false := by
  obtain ⟨x, hx, y, hy, -⟩ := h
  have hdefined : ∀ {c : Extended} {z}, z ∈ c.place? → Scalar.isNaN c = false := by
    intro c z hz
    refine Bool.eq_false_iff.mpr fun hnan => ?_
    rw [place?_eq_none_iff.mpr hnan] at hz
    nomatch hz
  exact ⟨hdefined hx, hdefined hy⟩

theorem le_of_not_lt (ha : Scalar.isNaN a = false) (hb : Scalar.isNaN b = false) (h : ¬ a < b) : b ≤ a := by
  obtain ⟨x, hx⟩ := exists_place? ha
  obtain ⟨y, hy⟩ := exists_place? hb
  exact ⟨y, hy, x, hx, not_lt.mp fun hlt => h ⟨x, hx, y, hy, hlt⟩⟩

protected theorem le_refl (h : Scalar.isNaN a = false) : a ≤ a := le_of_not_lt h h fun hlt => lt_asymm hlt hlt

/-- Numbers neither of which is the smaller are the same. -/
theorem eq_of_not_lt (ha : Scalar.isNaN a = false) (hb : Scalar.isNaN b = false) (h : ¬ a < b)
    (h' : ¬ b < a) : a = b := by
  obtain ⟨y, hy, x, hx, hyx⟩ := le_of_not_lt ha hb h
  obtain ⟨x', hx', y', hy', hxy⟩ := le_of_not_lt hb ha h'
  cases hx.symm.trans hx'
  cases hy.symm.trans hy'
  exact place?_injective (hx.trans ((congrArg some (le_antisymm hxy hyx)).trans hy.symm))

/-- What is at least one is a real number or infinite. -/
theorem greatest_one_cases (m : Extended) :
    (∃ x, 1 ≤ x ∧ Scalar.greatest m 1 = finite x) ∨ ∃ s, Scalar.greatest m 1 = infinite s := by
  unfold Scalar.greatest
  rw [one_eq]
  cases m with
  | finite x =>
    by_cases h : finite x < finite 1
    · exact Or.inl ⟨1, le_refl 1, if_pos h⟩
    · exact Or.inl ⟨x, not_lt.mp fun hx => h (finite_lt.mpr hx), if_neg h⟩
  | infinite s =>
    by_cases h : infinite s < finite 1
    · exact Or.inl ⟨1, le_refl 1, if_pos h⟩
    · exact Or.inr ⟨s, if_neg h⟩
  | undefined => exact Or.inl ⟨1, le_refl 1, rfl⟩

protected theorem le_trans (h : a ≤ b) (h' : b ≤ c) : a ≤ c := by
  obtain ⟨x, hx, y, hy, hxy⟩ := h
  obtain ⟨y', hy', z, hz, hyz⟩ := h'
  cases hy.symm.trans hy'
  exact ⟨x, hx, z, hz, hxy.trans hyz⟩

protected theorem lt_of_le_of_lt (h : a ≤ b) (h' : b < c) : a < c := by
  obtain ⟨x, hx, y, hy, hxy⟩ := h
  obtain ⟨y', hy', z, hz, hyz⟩ := h'
  cases hy.symm.trans hy'
  exact ⟨x, hx, z, hz, hxy.trans_lt hyz⟩

protected theorem lt_of_lt_of_le (h : a < b) (h' : b ≤ c) : a < c := by
  obtain ⟨x, hx, y, hy, hxy⟩ := h
  obtain ⟨y', hy', z, hz, hyz⟩ := h'
  cases hy.symm.trans hy'
  exact ⟨x, hx, z, hz, hxy.trans_le hyz⟩

protected theorem lt_or_eq_of_le (h : a ≤ b) : a < b ∨ a = b := by
  obtain ⟨x, hx, y, hy, hxy⟩ := h
  rcases hxy.lt_or_eq with hlt | rfl
  · exact Or.inl ⟨x, hx, y, hy, hlt⟩
  · exact Or.inr (place?_injective (hx.trans hy.symm))

theorem place?_neg (a : Extended) : (-a).place? = a.place?.map Neg.neg := by
  cases a with
  | finite x => rfl
  | infinite s => cases s <;> rfl
  | undefined => rfl

protected theorem neg_le_neg (h : a ≤ b) : -b ≤ -a := by
  obtain ⟨x, hx, y, hy, hxy⟩ := h
  refine ⟨-y, ?_, -x, ?_, EReal.neg_le_neg_iff.mpr hxy⟩
  · rw [place?_neg, Option.mem_def.mp hy]
    rfl
  · rw [place?_neg, Option.mem_def.mp hx]
    rfl

/-- The smaller of two numbers is above neither. -/
theorem least_le (ha : Scalar.isNaN a = false) (hb : Scalar.isNaN b = false) :
    Scalar.least a b ≤ a ∧ Scalar.least a b ≤ b := by
  unfold Scalar.least
  rw [ha, hb, if_neg Bool.false_ne_true, if_neg Bool.false_ne_true]
  split
  next h => exact ⟨le_of_lt h, Extended.le_refl hb⟩
  next h => exact ⟨Extended.le_refl ha, le_of_not_lt hb ha h⟩

/-- The greater of two numbers is below neither. -/
theorem le_greatest (ha : Scalar.isNaN a = false) (hb : Scalar.isNaN b = false) :
    a ≤ Scalar.greatest a b ∧ b ≤ Scalar.greatest a b := by
  unfold Scalar.greatest
  rw [ha, hb, if_neg Bool.false_ne_true, if_neg Bool.false_ne_true]
  split
  next h => exact ⟨le_of_lt h, Extended.le_refl hb⟩
  next h => exact ⟨Extended.le_refl ha, le_of_not_lt ha hb h⟩

/-- Numbers between the ends of an interval stay when they are moved into it. -/
theorem clamp_of_le (h : a ≤ c) (h' : c ≤ b) : Scalar.clamp a b c = c := by
  have hlow : ¬ c < a := fun hlt => not_le_of_lt hlt h
  have hhigh : ¬ b < c := fun hlt => not_le_of_lt hlt h'
  unfold Scalar.clamp
  dsimp only
  rw [if_neg hlow, if_neg hhigh]

theorem clamp_finite (lo hi x : ℝ) :
    Scalar.clamp (finite lo) (finite hi) (finite x) = finite (min hi (max lo x)) := by
  have hraise : (if finite x < finite lo then finite lo else finite x) = finite (max lo x) := by
    simp only [finite_lt]
    split
    next h => rw [max_eq_left h.le]
    next h => rw [max_eq_right (not_lt.mp h)]
  unfold Scalar.clamp
  rw [hraise]
  simp only [finite_lt]
  split
  next h => rw [min_eq_left h.le]
  next h => rw [min_eq_right (not_lt.mp h)]

/-! ## Whole numbers -/

theorem truncate_intCast (n : ℤ) : truncate (finite n) = n := by
  show (if (n : ℝ) < 0 then ⌈(n : ℝ)⌉ else ⌊(n : ℝ)⌋) = n
  rw [Int.ceil_intCast, Int.floor_intCast, ite_self]

/-- Whole numbers that fit are read as they are. -/
theorem toInt64_intCast {n : ℤ} (hlo : -0x8000000000000000 ≤ n) (hhi : n ≤ 0x7FFFFFFFFFFFFFFF) :
    Scalar.toInt64 (finite n) = n := by
  unfold Scalar.toInt64 Scalar.truncateWithin
  show max _ (min _ (truncate (finite n))) = n
  rw [truncate_intCast]
  omega

theorem round_of_pos {x : ℝ} (h : 0 < x) : Scalar.round (finite x) = finite (⌊x + 1 / 2⌋ : ℤ) := by
  show finite ((if x < 0 then -⌊-x + 1 / 2⌋ else ⌊x + 1 / 2⌋ : ℤ) : ℝ) = _
  rw [if_neg h.not_gt]

/-- The nearest whole number is less than one away. -/
theorem exists_round (x : ℝ) : ∃ i : ℤ, Scalar.round (finite x) = finite i ∧ x < i + 1 ∧ i < x + 1 := by
  by_cases h : x < 0
  · refine ⟨-⌊-x + 1 / 2⌋, ?_, ?_, ?_⟩
    · show finite ((if x < 0 then -⌊-x + 1 / 2⌋ else ⌊x + 1 / 2⌋ : ℤ) : ℝ) = _
      rw [if_pos h]
    · have := Int.floor_le (-x + 1 / 2)
      push_cast
      linarith
    · have := Int.lt_floor_add_one (-x + 1 / 2)
      push_cast
      linarith
  · refine ⟨⌊x + 1 / 2⌋, ?_, ?_, ?_⟩
    · show finite ((if x < 0 then -⌊-x + 1 / 2⌋ else ⌊x + 1 / 2⌋ : ℤ) : ℝ) = _
      rw [if_neg h]
    · have := Int.lt_floor_add_one (x + 1 / 2)
      linarith
    · have := Int.floor_le (x + 1 / 2)
      linarith

/-- What lies between whole numbers is rounded to a whole number between them. -/
theorem exists_round_between {x : ℝ} {a b : ℤ} (ha : a ≤ x) (hb : x ≤ b) :
    ∃ i : ℤ, Scalar.round (finite x) = finite i ∧ a ≤ i ∧ i ≤ b := by
  obtain ⟨i, hround, hlt, hlt'⟩ := exists_round x
  have hlow : (a : ℝ) < (i + 1 : ℤ) := by
    push_cast
    linarith
  have hhigh : (i : ℝ) < (b + 1 : ℤ) := by
    push_cast
    linarith
  exact ⟨i, hround, Int.lt_add_one_iff.mp (Int.cast_lt.mp hlow), Int.lt_add_one_iff.mp (Int.cast_lt.mp hhigh)⟩

theorem abs_zero : Scalar.abs (finite 0) = finite 0 := by
  unfold Scalar.abs
  rw [zero_eq, if_neg (by rw [finite_lt]; exact lt_irrefl _)]

theorem abs_of_pos {x : ℝ} (h : 0 < x) : Scalar.abs (finite x) = finite x := by
  unfold Scalar.abs
  rw [zero_eq, if_neg]
  rw [finite_lt]
  exact h.not_gt

theorem abs_neg_of_pos {x : ℝ} (h : 0 < x) : Scalar.abs (-finite x) = finite x := by
  unfold Scalar.abs
  rw [neg_finite, zero_eq, if_pos (finite_lt.mpr (neg_neg_of_pos h)), ← neg_finite, neg_neg]

end Extended

end VisualEncoding
