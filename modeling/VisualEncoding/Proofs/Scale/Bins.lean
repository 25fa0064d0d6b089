import VisualEncoding.Proofs.Order.Bisect
import VisualEncoding.Proofs.Value.Numbers
import VisualEncoding.Scale.Ordinal

/-!
# Bins and their entries

Between the boundaries of a bin scale lies one bin less than there are boundaries. Where there is one entry for each
(`OnePerBin`), a number in a bin has the entry of the bin (`OnePerBin.place?_of_inBin`), so that greater numbers have
later entries. At the last boundary, though, behind which there is no bin, the entries start over:

> `place?_le_iff`: of two numbers up to the last boundary the greater one has the earlier entry if and only if it is
> the last boundary and the other one lies in a bin that is not the first.
-/

namespace VisualEncoding.BinOrdinal

open Scalar (IsOrdered)

variable {α : Type} [Scalar α]

/-- The place in the range of the entry for a number; there is none below the first boundary. -/
def place? (s : BinOrdinal α) (x : α) : Option Nat :=
  match Order.countUpTo s.boundaries x with
  | 0 => none
  | i + 1 => some (i % s.range.length)

/-- Ascending boundaries, and one entry for each bin between two of them. -/
structure OnePerBin (s : BinOrdinal α) : Prop where
  ascending : s.boundaries.Pairwise (· < ·)
  length_boundaries : s.boundaries.length = s.range.length + 1
  range_ne_nil : s.range ≠ []

/-- A number lies in the bin from a boundary to the next, which is not part of it. -/
def InBin (s : BinOrdinal α) (i : Nat) (x : α) : Prop :=
  ∃ lo hi, s.boundaries[i]? = some lo ∧ s.boundaries[i + 1]? = some hi ∧ lo ≤ x ∧ x < hi

variable {s : BinOrdinal α} {first second last x y a b : α} {i j : Nat}

theorem applyNumber_eq (s : BinOrdinal α) (x : α) :
    s.applyNumber x = ((s.place? x).bind fun i => s.range[i]?).getD .null := by
  unfold applyNumber place?
  cases Order.countUpTo s.boundaries x <;> rfl

/-- The entry for a number stands at its place. -/
theorem getElem?_place (hplace : s.place? x = some i) (hi : i < s.range.length) (hx : Scalar.isNaN x = false) :
    s.range[i]? = some (s.apply (.number x)) := by
  have happly : s.apply (.number x) = s.applyNumber x := Value.map_toNumber?_number hx s.applyNumber
  rw [happly, applyNumber_eq, hplace, Option.bind_some, List.getElem?_eq_getElem hi]
  rfl

theorem OnePerBin.lt_of_inBin (h : s.OnePerBin) (hx : s.InBin i x) : i < s.range.length := by
  obtain ⟨-, hi, -, hupper, -⟩ := hx
  obtain ⟨hlt, -⟩ := List.getElem?_eq_some_iff.mp hupper
  rw [h.length_boundaries] at hlt
  exact Nat.lt_of_succ_lt_succ hlt

theorem OnePerBin.boundary_lt (h : s.OnePerBin) (hij : i < j) (hi : s.boundaries[i]? = some a)
    (hj : s.boundaries[j]? = some b) : a < b := by
  obtain ⟨hi', rfl⟩ := List.getElem?_eq_some_iff.mp hi
  obtain ⟨hj', rfl⟩ := List.getElem?_eq_some_iff.mp hj
  exact List.pairwise_iff_getElem.mp h.ascending i j hi' hj' hij

variable [IsOrdered α]

theorem OnePerBin.search_spec (h : s.OnePerBin) (x : α) :
    Order.countUpTo s.boundaries x ≤ s.boundaries.length ∧
      (∀ i a, i < Order.countUpTo s.boundaries x → s.boundaries[i]? = some a → a ≤ x) ∧
      ∀ i a, Order.countUpTo s.boundaries x ≤ i → s.boundaries[i]? = some a → ¬ a ≤ x :=
  Order.countUpTo_spec (Order.searchable (Order.ascending_of_strict h.ascending) x)

/-- A number in a bin has the entry of the bin. -/
theorem OnePerBin.place?_of_inBin (h : s.OnePerBin) (hx : s.InBin i x) : s.place? x = some i := by
  have hbin := h.lt_of_inBin hx
  obtain ⟨lo, hi, hlower, hupper, hlo, hhi⟩ := hx
  obtain ⟨-, hbefore, hafter⟩ := h.search_spec x
  have hbeyond : i < Order.countUpTo s.boundaries x := Nat.lt_of_not_le fun hle => hafter i lo hle hlower hlo
  have hwithin : Order.countUpTo s.boundaries x ≤ i + 1 :=
    Nat.le_of_not_lt fun hlt => IsOrdered.not_le_of_lt hhi (hbefore (i + 1) hi hlt hupper)
  have hcount : Order.countUpTo s.boundaries x = i + 1 := by omega
  unfold place?
  rw [hcount]
  exact congrArg some (Nat.mod_eq_of_lt hbin)

/-- From the first boundary up to the last one, numbers lie in bins. -/
theorem OnePerBin.exists_inBin (h : s.OnePerBin) (hfirst : s.boundaries[0]? = some first)
    (hlast : s.boundaries[s.range.length]? = some last) (hx : first ≤ x) (hx' : x < last) : ∃ i, s.InBin i x := by
  obtain ⟨-, hbefore, hafter⟩ := h.search_spec x
  have hpos : 0 < Order.countUpTo s.boundaries x := Nat.lt_of_not_le fun hle => hafter 0 first hle hfirst hx
  have hwithin : Order.countUpTo s.boundaries x ≤ s.range.length :=
    Nat.le_of_not_lt fun hlt => IsOrdered.not_le_of_lt hx' (hbefore _ last hlt hlast)
  obtain ⟨i, hi⟩ := Nat.exists_eq_succ_of_ne_zero hpos.ne'
  rw [hi] at hbefore hafter hwithin
  have hlength := h.length_boundaries
  have hlower := List.getElem?_eq_getElem (show i < s.boundaries.length by omega)
  have hupper := List.getElem?_eq_getElem (show i + 1 < s.boundaries.length by omega)
  have hstep := h.boundary_lt (Nat.lt_succ_self i) hlower hupper
  have hdefined := (IsOrdered.isNaN_of_le (IsOrdered.le_of_lt hstep)).2
  exact ⟨i, _, _, hlower, hupper, hbefore i _ (Nat.lt_succ_self i) hlower,
    IsOrdered.lt_of_not_le (IsOrdered.isNaN_of_le hx).2 hdefined (hafter (i + 1) _ (Nat.le_refl _) hupper)⟩

/-- From the last boundary on the entries start over, as the search counts one boundary more than there are entries. -/
theorem OnePerBin.place?_of_last_le (h : s.OnePerBin) (hlast : s.boundaries[s.range.length]? = some last)
    (hx : last ≤ x) : s.place? x = some 0 := by
  obtain ⟨hle, -, hafter⟩ := h.search_spec x
  have hbeyond : s.range.length < Order.countUpTo s.boundaries x :=
    Nat.lt_of_not_le fun hle => hafter _ last hle hlast hx
  rw [h.length_boundaries] at hle
  have hcount : Order.countUpTo s.boundaries x = s.range.length + 1 := by omega
  unfold place?
  rw [hcount]
  exact congrArg some (Nat.mod_self _)

/-- Of two numbers in bins the greater one lies in the later bin, or in the same. -/
theorem OnePerBin.le_of_inBin (h : s.OnePerBin) (hx : s.InBin i x) (hy : s.InBin j y) (hxy : x ≤ y) : i ≤ j := by
  obtain ⟨lo, -, hlower, -, hlo, -⟩ := hx
  obtain ⟨-, hi, -, hupper, -, hhi⟩ := hy
  -- otherwise the bin of the greater number would close no later than the bin of the other opens
  refine Nat.le_of_not_lt fun hlt => IsOrdered.not_le_of_lt hhi ?_
  rcases Nat.eq_or_lt_of_le hlt with rfl | hbefore
  · cases hupper.symm.trans hlower
    exact IsOrdered.le_trans hlo hxy
  · exact IsOrdered.le_trans (IsOrdered.le_of_lt (h.boundary_lt hbefore hupper hlower)) (IsOrdered.le_trans hlo hxy)

/-- A number lies in the first bin if and only if it is below the second boundary. -/
theorem OnePerBin.eq_zero_iff_of_inBin (h : s.OnePerBin) (hsecond : s.boundaries[1]? = some second)
    (hx : s.InBin i x) : i = 0 ↔ x < second := by
  obtain ⟨lo, hi, hlower, hupper, hlo, hhi⟩ := hx
  constructor
  · rintro rfl
    cases hupper.symm.trans hsecond
    exact hhi
  · intro hbelow
    refine Classical.byContradiction fun hne => IsOrdered.not_le_of_lt hbelow ?_
    rcases Nat.eq_or_lt_of_le (Nat.pos_of_ne_zero hne) with rfl | hlt
    · cases hlower.symm.trans hsecond
      exact hlo
    · exact IsOrdered.le_trans (IsOrdered.le_of_lt (h.boundary_lt hlt hsecond hlower)) hlo

/-- From the first boundary to the last one there are entries: that of the bin, or the first for the last boundary. -/
theorem OnePerBin.exists_place (h : s.OnePerBin) (hfirst : s.boundaries[0]? = some first)
    (hlast : s.boundaries[s.range.length]? = some last) (hx : first ≤ x) (hx' : x ≤ last) :
    ∃ i, s.place? x = some i ∧ s.range[i]? = some (s.apply (.number x)) ∧ (x < last → s.InBin i x) ∧
      (last ≤ x → i = 0) := by
  obtain ⟨hxdef, hlastdef⟩ := IsOrdered.isNaN_of_le hx'
  by_cases hbelow : x < last
  · obtain ⟨i, hi⟩ := h.exists_inBin hfirst hlast hx hbelow
    have hplace := h.place?_of_inBin hi
    exact ⟨i, hplace, getElem?_place hplace (h.lt_of_inBin hi) hxdef, fun _ => hi,
      fun hlastx => absurd hlastx (IsOrdered.not_le_of_lt hbelow)⟩
  · have hplace := h.place?_of_last_le hlast (IsOrdered.le_of_not_lt hxdef hlastdef hbelow)
    exact ⟨0, hplace, getElem?_place hplace (List.length_pos_iff.mpr h.range_ne_nil) hxdef,
      fun hlt => absurd hlt hbelow, fun _ => rfl⟩

/-- Of two numbers from the first boundary to the last one, the greater one has the earlier entry if and only if it is
the last boundary and the other one lies behind the first bin, but before the last boundary. -/
theorem place?_le_iff (h : s.OnePerBin) (hfirst : s.boundaries[0]? = some first)
    (hsecond : s.boundaries[1]? = some second) (hlast : s.boundaries[s.range.length]? = some last) (hx : first ≤ x)
    (hxy : x ≤ y) (hy : y ≤ last) :
    ∃ i j, s.place? x = some i ∧ s.place? y = some j ∧ s.range[i]? = some (s.apply (.number x)) ∧
      s.range[j]? = some (s.apply (.number y)) ∧ (x < last → s.InBin i x) ∧ (y < last → s.InBin j y) ∧
      (i ≤ j ↔ y < last ∨ x < second ∨ last ≤ x) := by
  obtain ⟨i, hplacex, hentryx, hbinx, hendx⟩ := h.exists_place hfirst hlast hx (IsOrdered.le_trans hxy hy)
  obtain ⟨j, hplacey, hentryy, hbiny, hendy⟩ := h.exists_place hfirst hlast (IsOrdered.le_trans hx hxy) hy
  refine ⟨i, j, hplacex, hplacey, hentryx, hentryy, hbinx, hbiny, ?_⟩
  obtain ⟨hxdef, hydef⟩ := IsOrdered.isNaN_of_le hxy
  obtain ⟨-, hlastdef⟩ := IsOrdered.isNaN_of_le hy
  by_cases hylast : y < last
  · have hxlast := IsOrdered.lt_of_le_of_lt hxy hylast
    exact iff_of_true (h.le_of_inBin (hbinx hxlast) (hbiny hylast) hxy) (.inl hylast)
  · -- the greater number has the first entry, so the other one has to have it too
    rw [hendy (IsOrdered.le_of_not_lt hydef hlastdef hylast), Nat.le_zero]
    by_cases hxlast : x < last
    · rw [h.eq_zero_iff_of_inBin hsecond (hbinx hxlast)]
      exact ⟨fun hbelow => .inr (.inl hbelow),
        fun hor => (hor.resolve_left hylast).resolve_right (IsOrdered.not_le_of_lt hxlast)⟩
    · have hlastx : last ≤ x := IsOrdered.le_of_not_lt hxdef hlastdef hxlast
      exact iff_of_true (hendx hlastx) (.inr (.inr hlastx))

/-- Two bins of ten. -/
def lowAndHigh : BinOrdinal Float := { boundaries := [0, 10, 20], range := [.string "low", .string "high"] }

theorem lowAndHigh_onePerBin : lowAndHigh.OnePerBin where
  ascending := by decide
  length_boundaries := rfl
  range_ne_nil := by decide

/-- Fifteen lies in the second bin, and at twenty the entries start over. -/
theorem place?_le_iff_lowAndHigh :
    lowAndHigh.OnePerBin ∧
      ∃ i j, lowAndHigh.place? 15 = some i ∧ lowAndHigh.place? 20 = some j ∧
        lowAndHigh.range[i]? = some (lowAndHigh.apply (.number 15)) ∧
        lowAndHigh.range[j]? = some (lowAndHigh.apply (.number 20)) ∧ ¬ i ≤ j := by
  obtain ⟨i, j, hi, hj, hentry, hentry', -, -, hle⟩ :=
    place?_le_iff (x := 15) (y := 20) lowAndHigh_onePerBin rfl rfl rfl (by decide) (by decide) (by decide)
  refine ⟨lowAndHigh_onePerBin, i, j, hi, hj, hentry, hentry', fun h => ?_⟩
  exact absurd (hle.mp h) (by decide)

/-- The last boundary has the first entry, while a number before it has the last one. -/
theorem place?_descends :
    ¬ ∀ s : BinOrdinal Float, s.OnePerBin → ∀ first last x y : Float, s.boundaries[0]? = some first →
      s.boundaries[s.range.length]? = some last → first ≤ x → x ≤ y → y ≤ last →
      ∃ i j, s.place? x = some i ∧ s.place? y = some j ∧ s.range[i]? = some (s.apply (.number x)) ∧
        s.range[j]? = some (s.apply (.number y)) ∧ i ≤ j := by
  intro h
  obtain ⟨i, j, hi, hj, -, -, hle⟩ :=
    h lowAndHigh lowAndHigh_onePerBin 0 20 15 20 rfl rfl (by decide) (by decide) (by decide)
  have hsecond : lowAndHigh.InBin 1 15 := ⟨10, 20, rfl, rfl, by decide, by decide⟩
  have hlast : lowAndHigh.boundaries[lowAndHigh.range.length]? = some (20 : Float) := rfl
  rw [lowAndHigh_onePerBin.place?_of_inBin hsecond] at hi
  rw [lowAndHigh_onePerBin.place?_of_last_le hlast (by decide)] at hj
  cases hi
  cases hj
  exact absurd hle (by decide)

end VisualEncoding.BinOrdinal
