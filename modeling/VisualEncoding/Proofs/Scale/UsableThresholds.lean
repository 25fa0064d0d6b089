import VisualEncoding.Proofs.Order.Bisect
import VisualEncoding.Proofs.Value.Numbers
import VisualEncoding.Scale.CutInterval

/-!
# Thresholds and entries of any number

Thresholds that are fewer than the entries of a range leave every group an entry (`getElem?_entryFor`), and each of
the scales that have thresholds gives a number the entry of its group. A threshold scale is given its thresholds and
its entries, and neither list has to fit the other. Thresholds that have no entry on both sides are left out of the
search. On ascending thresholds that makes a difference only behind the last entry, where the search stops
(`Threshold.countUpTo_usable`), so

> `Threshold.getElem?_count`: a number has the entry at the number of thresholds that are not above it, or the last
> entry where there are fewer.
-/

namespace VisualEncoding

/-! ## Groups and their entries -/

section Groups

variable {α : Type} [Scalar α] {thresholds : List α} {range : List (Value α)} {x : α}

/-- The entry of a group stands at the place of the group. -/
theorem getElem?_entryFor (h : Order.countUpTo thresholds x < range.length) :
    range[Order.countUpTo thresholds x]? = some (entryFor thresholds range x) := by
  unfold entryFor
  rw [List.getElem?_eq_getElem h]
  rfl

theorem CutInterval.apply_number (s : CutInterval α) (hx : Scalar.isNaN x = false) :
    s.apply (.number x) = entryFor s.thresholds s.scale.range x :=
  Value.map_toNumber?_number hx s.applyNumber

theorem Quantile.apply_number (s : Quantile α) (hx : Scalar.isNaN x = false) :
    s.apply (.number x) = entryFor s.thresholds s.range x :=
  Value.map_toNumber?_number hx s.applyNumber

end Groups

/-! ## Thresholds that are used -/

namespace Threshold

open Scalar (IsOrdered)

variable {α : Type} [Scalar α] {s : Threshold α}

theorem apply_eq_entryFor {v : Value α} {x : α} (hx : v.toNumber? = some x) :
    s.apply v = entryFor s.usable s.range x := by
  unfold apply
  rw [hx]
  rfl

theorem apply_of_no_number {v : Value α} (hv : v.toNumber? = none) : s.apply v = .null := by
  unfold apply
  rw [hv]
  rfl

theorem apply_of_no_entries (hrange : s.range = []) (v : Value α) : s.apply v = .null := by
  cases hv : v.toNumber? with
  | none => exact apply_of_no_number hv
  | some x =>
    rw [apply_eq_entryFor hv, hrange]
    rfl

variable [IsOrdered α]

/-- The search among the thresholds that have an entry on both sides stops where the search among all thresholds does,
or at the last entry. -/
theorem countUpTo_usable (h : s.thresholds.Pairwise (· ≤ ·)) (x : α) :
    Order.countUpTo s.usable x = min (s.thresholds.countP fun t => decide (t ≤ x)) (s.range.length - 1) := by
  have hsearch := Order.searchable h x
  unfold usable
  rw [Order.countUpTo_take hsearch, Order.countUpTo_eq_countP hsearch]

/-- **A number has the entry at the count of the thresholds that are not above it.** On ascending thresholds, some of
which may be equal, the search is that count; where there are fewer entries the last one stands for the others. Without
entries, and for a value that stands for no number, there is none. -/
theorem getElem?_count (h : s.thresholds.Pairwise (· ≤ ·)) :
    (∀ x, Order.countUpTo s.thresholds x = s.thresholds.countP fun t => decide (t ≤ x)) ∧
      (∀ v x, v.toNumber? = some x → s.range ≠ [] →
        s.range[min (s.thresholds.countP fun t => decide (t ≤ x)) (s.range.length - 1)]? = some (s.apply v)) ∧
      ∀ v, s.range = [] ∨ v.toNumber? = none → s.apply v = .null := by
  refine ⟨fun x => Order.countUpTo_eq_countP (Order.searchable h x), fun v x hx hrange => ?_, fun v hv => ?_⟩
  · have hpos := List.length_pos_iff.mpr hrange
    have hcount := countUpTo_usable h x
    -- the search does not stop behind the last entry
    rw [← hcount, apply_eq_entryFor hx]
    exact getElem?_entryFor (by omega)
  · rcases hv with hrange | hv
    · exact apply_of_no_entries hrange v
    · exact apply_of_no_number hv

/-- Two equal thresholds, and one more than the entries can stand between. -/
def shortRange : Threshold Float :=
  { thresholds := [0, 1, 1, 2], range := [.string "a", .string "b", .string "c", .string "d"] }

/-- At the equal thresholds a number has the entry behind both, and behind all thresholds the last entry. -/
theorem getElem?_count_shortRange :
    shortRange.thresholds.Pairwise (· ≤ ·) ∧ shortRange.range ≠ [] ∧
      (Value.number 1 : Value Float).toNumber? = some 1 ∧ (Value.number 5 : Value Float).toNumber? = some 5 ∧
      shortRange.apply (.number 1) = .string "d" ∧ shortRange.apply (.number 5) = .string "d" := by
  have hascending : shortRange.thresholds.Pairwise (· ≤ ·) := by decide
  have hrange : shortRange.range ≠ [] := List.cons_ne_nil _ _
  have hone : (Value.number 1 : Value Float).toNumber? = some 1 := Value.toNumber?_number (by decide)
  have hfive : (Value.number 5 : Value Float).toNumber? = some 5 := Value.toNumber?_number (by decide)
  obtain ⟨-, hentry, -⟩ := getElem?_count hascending
  have hcountOne : (shortRange.thresholds.countP fun t => decide (t ≤ 1)) = 3 := by decide
  have hcountFive : (shortRange.thresholds.countP fun t => decide (t ≤ 5)) = 4 := by decide
  have hlast := hentry _ _ hone hrange
  have hbehind := hentry _ _ hfive hrange
  rw [hcountOne] at hlast
  rw [hcountFive] at hbehind
  exact ⟨hascending, hrange, hone, hfive, (Option.some.inj hlast).symm, (Option.some.inj hbehind).symm⟩

end Threshold

end VisualEncoding
