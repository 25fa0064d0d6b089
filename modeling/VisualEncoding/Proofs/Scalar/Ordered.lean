import Mathlib.Data.Prod.Lex
import VisualEncoding.Proofs.Scalar.Extended

/-!
# Numbers on a line

A scalar promises no law for its comparisons, as undefined numbers compare with nothing. What searching and sorting
need is that all others stand on a line (`IsOrdered`): then they are compared by their places on it
(`isOrdered_of_places`). Doubles do, by their signs, exponents and mantissas, and so do the numbers of exact arithmetic.
-/

namespace VisualEncoding

namespace Scalar

/-- Numbers are ordered in a line, but for undefined ones, which compare with nothing. -/
class IsOrdered (α : Type) [Scalar α] : Prop where
  le_trans : ∀ {a b c : α}, a ≤ b → b ≤ c → a ≤ c
  le_total : ∀ {a b : α}, isNaN a = false → isNaN b = false → a ≤ b ∨ b ≤ a
  lt_iff : ∀ {a b : α}, a < b ↔ a ≤ b ∧ ¬ b ≤ a
  isNaN_of_le : ∀ {a b : α}, a ≤ b → isNaN a = false ∧ isNaN b = false

variable {α : Type} [Scalar α]

/-- Numbers that are compared by their places on a line are ordered. -/
theorem isOrdered_of_places {Line : Type} [LinearOrder Line] (place? : α → Option Line)
    (hle : ∀ a b : α, a ≤ b ↔ ∃ x ∈ place? a, ∃ y ∈ place? b, x ≤ y)
    (hlt : ∀ a b : α, a < b ↔ ∃ x ∈ place? a, ∃ y ∈ place? b, x < y)
    (hnan : ∀ a : α, isNaN a = (place? a).isNone) : IsOrdered α where
  le_trans := by
    intro a b c hab hbc
    obtain ⟨x, hx, y, hy, hxy⟩ := (hle a b).mp hab
    obtain ⟨y', hy', z, hz, hyz⟩ := (hle b c).mp hbc
    cases hy.symm.trans hy'
    exact (hle a c).mpr ⟨x, hx, z, hz, hxy.trans hyz⟩
  le_total := by
    intro a b ha hb
    rw [hnan, Option.isNone_eq_false_iff, Option.isSome_iff_exists] at ha hb
    obtain ⟨x, hx⟩ := ha
    obtain ⟨y, hy⟩ := hb
    exact (le_total x y).imp (fun h => (hle a b).mpr ⟨x, hx, y, hy, h⟩) fun h => (hle b a).mpr ⟨y, hy, x, hx, h⟩
  lt_iff := by
    intro a b
    rw [hlt, hle, hle]
    constructor
    · rintro ⟨x, hx, y, hy, hxy⟩
      refine ⟨⟨x, hx, y, hy, hxy.le⟩, ?_⟩
      rintro ⟨y', hy', x', hx', hyx⟩
      cases hx.symm.trans hx'
      cases hy.symm.trans hy'
      exact hxy.not_ge hyx
    · rintro ⟨⟨x, hx, y, hy, -⟩, hnot⟩
      exact ⟨x, hx, y, hy, not_le.mp fun hyx => hnot ⟨y, hy, x, hx, hyx⟩⟩
  isNaN_of_le := by
    intro a b h
    obtain ⟨x, hx, y, hy, -⟩ := (hle a b).mp h
    rw [hnan, hnan, Option.mem_def.mp hx, Option.mem_def.mp hy]
    exact ⟨rfl, rfl⟩

namespace IsOrdered

variable [IsOrdered α] {a b c : α}

theorem le_of_lt (h : a < b) : a ≤ b := (lt_iff.mp h).1

theorem not_le_of_lt (h : a < b) : ¬ b ≤ a := (lt_iff.mp h).2

theorem lt_of_not_le (ha : isNaN a = false) (hb : isNaN b = false) (h : ¬ b ≤ a) : a < b :=
  lt_iff.mpr ⟨(le_total ha hb).resolve_right h, h⟩

theorem le_of_not_lt (ha : isNaN a = false) (hb : isNaN b = false) (h : ¬ a < b) : b ≤ a :=
  Classical.byContradiction fun hnot => h (lt_of_not_le ha hb hnot)

theorem lt_asymm (h : a < b) : ¬ b < a := fun h' => not_le_of_lt h (le_of_lt h')

theorem lt_of_le_of_lt (h : a ≤ b) (h' : b < c) : a < c :=
  lt_iff.mpr ⟨le_trans h (le_of_lt h'), fun hca => not_le_of_lt h' (le_trans hca h)⟩

theorem le_greatest_right (hb : isNaN b = false) : b ≤ greatest a b := by
  have hself : b ≤ b := (le_total hb hb).elim id id
  unfold greatest
  split
  next => exact hself
  next ha =>
    rw [if_neg (by rw [hb]; exact Bool.false_ne_true)]
    split
    next => exact hself
    next hnot => exact le_of_not_lt (Bool.eq_false_iff.mpr ha) hb hnot

end IsOrdered

end Scalar

/-! ## Exact numbers -/

instance Extended.instIsOrdered : Scalar.IsOrdered Extended :=
  Scalar.isOrdered_of_places Extended.place? (fun _ _ => Iff.rfl) (fun _ _ => Iff.rfl) fun _ => rfl

/-! ## Doubles -/

namespace Double

open Float.Model

theorem swap_compare_magnitudes (e e' : Int) (m m' : Nat) :
    ((compare e e').then (compare m m')).swap = (compare e' e).then (compare m' m) := by
  rw [Ordering.swap_then, Int.compare_swap, Nat.compare_swap]

/-- Where a double stands: first by its kind, from negative infinity to positive infinity, then by its exponent, then
by its mantissa. -/
def place? : UnpackedFloat → Option (ℤ ×ₗ ℤ ×ₗ ℤ)
  | .infinity .negative => some (toLex (-2, toLex (0, 0)))
  | .finite .negative m e _ => some (toLex (-1, toLex (-e, -m)))
  | .zero _ => some (toLex (0, toLex (0, 0)))
  | .finite .positive m e _ => some (toLex (1, toLex (e, m)))
  | .infinity .positive => some (toLex (2, toLex (0, 0)))
  | .notANumber => none

theorem compare_toLex {β γ : Type} [Ord β] [Ord γ] (x x' : β) (y y' : γ) :
    compare (toLex (x, y)) (toLex (x', y')) = (compare x x').then (compare y y') := by
  rw [Prod.Lex.compare_def]
  rfl

theorem compare_neg (e e' : ℤ) : compare (-e) (-e') = compare e' e := by
  rw [Int.compare_eq_ite_lt, Int.compare_eq_ite_lt]
  simp only [neg_lt_neg_iff]

theorem compare_natCast (m m' : ℕ) : compare (m : ℤ) (m' : ℤ) = compare m m' := by
  rw [Int.compare_eq_ite_lt, Nat.compare_eq_ite_lt]
  simp only [Nat.cast_lt]

/-- Doubles are compared by their places. -/
theorem compare_eq (a b : UnpackedFloat) :
    a.compare b = (place? a).bind fun x => (place? b).map fun y => compare x y := by
  cases a with
  | notANumber => cases b <;> rfl
  | infinity s =>
    cases b with
    | infinity t | finite t => cases s <;> cases t <;> rfl
    | zero | notANumber => cases s <;> rfl
  | zero s =>
    cases b with
    | infinity t | finite t => cases t <;> rfl
    | zero | notANumber => rfl
  | finite s m e hm =>
    cases b with
    | infinity t => cases s <;> cases t <;> rfl
    | zero | notANumber => cases s <;> rfl
    | finite t m' e' hm' =>
      cases s with
      | positive =>
        cases t with
        | positive =>
          show some _ = some (compare (toLex ((1 : ℤ), toLex (e, (m : ℤ)))) (toLex ((1 : ℤ), toLex (e', (m' : ℤ)))))
          rw [compare_toLex, compare_toLex, compare_natCast]
          rfl
        | negative => rfl
      | negative =>
        cases t with
        | positive => rfl
        | negative =>
          show some _
            = some (compare (toLex ((-1 : ℤ), toLex (-e, -(m : ℤ)))) (toLex ((-1 : ℤ), toLex (-e', -(m' : ℤ)))))
          rw [swap_compare_magnitudes, compare_toLex, compare_toLex, compare_neg e, compare_neg (m : ℤ),
            compare_natCast]
          rfl

variable {x y : Float}

theorem le_iff : x ≤ y ↔ ∃ a ∈ place? x.toModel.unpack, ∃ b ∈ place? y.toModel.unpack, a ≤ b := by
  have hle : x ≤ y ↔ (x.toModel.unpack.compare y.toModel.unpack).any (·.isLE) = true := decide_eq_true_iff
  rw [hle, compare_eq]
  cases place? x.toModel.unpack with
  | none => simp
  | some a =>
    cases place? y.toModel.unpack with
    | none => simp
    | some b => simp [Ordering.isLE_iff_ne_gt, compare_le_iff_le]

theorem lt_iff : x < y ↔ ∃ a ∈ place? x.toModel.unpack, ∃ b ∈ place? y.toModel.unpack, a < b := by
  have hlt : x < y ↔ (x.toModel.unpack.compare y.toModel.unpack == some .lt) = true := decide_eq_true_iff
  rw [hlt, compare_eq]
  cases place? x.toModel.unpack with
  | none => simp
  | some a =>
    cases place? y.toModel.unpack with
    | none => simp
    | some b => simp [compare_lt_iff_lt]

/-- Doubles are equal as numbers if they have one place: the two zeros are. -/
theorem beq_iff : (x == y) = true ↔ ∃ a ∈ place? y.toModel.unpack, a ∈ place? x.toModel.unpack := by
  have hbeq : (x == y) = (x.toModel.unpack.compare y.toModel.unpack == some .eq) := rfl
  rw [hbeq, compare_eq]
  cases place? x.toModel.unpack with
  | none => simp
  | some a =>
    cases place? y.toModel.unpack with
    | none => simp
    | some b => simp [compare_eq_iff_eq]

theorem isNaN_eq (x : Float) : Scalar.isNaN x = (place? x.toModel.unpack).isNone := by
  show x.toModel.unpack.isNaN = _
  cases x.toModel.unpack with
  | infinity s | finite s => cases s <;> rfl
  | zero | notANumber => rfl

instance instIsOrdered : Scalar.IsOrdered Float :=
  Scalar.isOrdered_of_places (fun x => place? x.toModel.unpack) (fun _ _ => le_iff) (fun _ _ => lt_iff) isNaN_eq

instance instAsymm : Std.Asymm (α := Float) (· < ·) := ⟨fun _ _ => Scalar.IsOrdered.lt_asymm⟩

/-- The place of a double that is not undefined. -/
def place (x : Float) : ℤ ×ₗ ℤ ×ₗ ℤ := (place? x.toModel.unpack).getD (toLex (0, toLex (0, 0)))

theorem place?_eq_some (h : Scalar.isNaN x = false) : place? x.toModel.unpack = some (place x) := by
  rw [isNaN_eq, Option.isNone_eq_false_iff, Option.isSome_iff_exists] at h
  obtain ⟨a, ha⟩ := h
  rw [place, ha]
  rfl

theorem le_iff_place (hx : Scalar.isNaN x = false) (hy : Scalar.isNaN y = false) : x ≤ y ↔ place x ≤ place y := by
  rw [le_iff, place?_eq_some hx, place?_eq_some hy]
  simp

theorem lt_iff_place (hx : Scalar.isNaN x = false) (hy : Scalar.isNaN y = false) : x < y ↔ place x < place y := by
  rw [lt_iff, place?_eq_some hx, place?_eq_some hy]
  simp

theorem beq_iff_place (hx : Scalar.isNaN x = false) (hy : Scalar.isNaN y = false) :
    (x == y) = true ↔ place x = place y := by
  rw [beq_iff, place?_eq_some hx, place?_eq_some hy]
  simp

end Double

end VisualEncoding
