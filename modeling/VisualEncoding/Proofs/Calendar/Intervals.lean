import Mathlib.Data.List.TakeWhile
import VisualEncoding.Calendar.Interval
import VisualEncoding.Proofs.Scalar.Extended

/-!
# Intervals of time

Which interval a span is cut by, what its boundaries are made of, and what becomes of the ends of a span.
-/

namespace VisualEncoding.Calendar.Interval

variable {α : Type} [Scalar α] {start stop : α} {count : Nat} {i : Interval} {zone : Zone} {ms : α}

/-! ## Choosing an interval -/

/-- The length that a part of a span is to have. -/
def partLength (start stop : α) (count : Nat) : α :=
  Scalar.abs (stop - start) / Scalar.ofInt (max count 1 : Nat)

theorem partLength_eq (start stop : α) (count : Nat) :
    Scalar.abs (stop - start) / Scalar.ofInt (max (count : Int) 1) = partLength start stop count := by
  have hmax : max (count : Int) 1 = ((max count 1 : Nat) : Int) := by omega
  rw [hmax]
  rfl

/-- A span whose parts are shorter than a second is cut by milliseconds. -/
theorem forSpan_of_short (h : ¬ (Scalar.ofInt 1000 : α) ≤ partLength start stop count) :
    forSpan start stop count = ofMillis start stop count := by
  have hnone : usual.takeWhile (fun u => decide ((Scalar.ofInt u.2.2 : α) ≤ partLength start stop count))
      = [] := by
    unfold usual
    exact List.takeWhile_cons_of_neg (by simpa using h)
  unfold forSpan
  dsimp only
  rw [partLength_eq, hnone]
  rfl

/-- The kinds of intervals that spans are cut by. -/
theorem forSpan_kinds (start stop : α) (count : Nat) :
    (¬ (Scalar.ofInt 1000 : α) ≤ partLength start stop count ∧
        forSpan start stop count = ofMillis start stop count) ∨
      (∃ w ∈ usual, forSpan start stop count = every w.1 w.2.1) ∨
      (Scalar.ofInt yearLength : α) ≤ partLength start stop count ∧
        forSpan start stop count = ofYears start stop count := by
  by_cases hshort : (Scalar.ofInt 1000 : α) ≤ partLength start stop count
  · refine .inr ?_
    unfold forSpan
    dsimp only
    rw [partLength_eq]
    generalize hshorter : usual.takeWhile
      (fun u => decide ((Scalar.ofInt u.2.2 : α) ≤ partLength start stop count)) = shorter
    have hprefix : shorter <+: usual := hshorter ▸ List.takeWhile_prefix _
    split
    next hnone =>
      -- the first usual length is a second
      rw [List.getLast?_eq_none_iff] at hnone
      rw [hnone, usual] at hshorter
      rw [List.takeWhile_cons_of_pos (by simpa using hshort)] at hshorter
      nomatch hshorter
    next last hlast hnone =>
      -- no usual length is left out, not even that of a year
      have hall : shorter = usual := hprefix.eq_of_length_le (List.getElem?_eq_none_iff.mp hnone)
      have hyear : (.year, 1, yearLength) ∈ shorter := hall ▸ List.mem_of_getElem? (i := 17) rfl
      rw [← hshorter] at hyear
      have hle := List.mem_takeWhile_imp hyear
      exact .inr ⟨of_decide_eq_true hle, rfl⟩
    next before after hbefore hafter =>
      have hmem : before ∈ usual := hprefix.subset (List.mem_of_getLast? hbefore)
      refine .inl ?_
      split
      · exact ⟨before, hmem, rfl⟩
      · exact ⟨after, List.mem_of_getElem? hafter, rfl⟩
  · exact .inl ⟨hshort, forSpan_of_short hshort⟩

/-! ## Boundaries -/

theorem floor_of_millisecond (h : i.unit = .millisecond) (zone : Zone) (ms : α) :
    i.floor zone ms = .ok (Scalar.floor (ms / Scalar.ofInt i.step) * Scalar.ofInt i.step) := by
  unfold floor
  rw [if_pos h]

theorem advance_of_millisecond (h : i.unit = .millisecond) (zone : Zone) (ms : α) :
    i.advance zone ms = .ok (ms + Scalar.ofInt i.step) := by
  unfold advance
  rw [if_pos h]

theorem floor_of_not_millisecond (h : i.unit ≠ .millisecond) (zone : Zone) (ms : α) :
    i.floor zone ms = moveOnClock i.startOf zone ms := by
  unfold floor
  rw [if_neg h]

theorem advance_of_not_millisecond (h : i.unit ≠ .millisecond) (zone : Zone) (ms : α) :
    i.advance zone ms = moveOnClock i.oneStepAfter zone ms := by
  unfold advance
  rw [if_neg h]

/-- Milliseconds are counted without the calendar. -/
theorem ceil_of_millisecond (h : i.unit = .millisecond) (zone : Zone) (ms : α) :
    i.ceil zone ms = .ok
      (Scalar.floor ((Scalar.floor ((ms - 1) / Scalar.ofInt i.step) * Scalar.ofInt i.step
        + Scalar.ofInt i.step) / Scalar.ofInt i.step) * Scalar.ofInt i.step) := by
  unfold ceil next
  rw [floor_of_millisecond h]
  simp only [bind, Except.bind]
  rw [advance_of_millisecond h]
  exact floor_of_millisecond h zone _

end VisualEncoding.Calendar.Interval

namespace VisualEncoding.Calendar

/-! ## Ends of a span -/

section

variable {α : Type} [Scalar α] {zone : Zone} {a b lo hi : α} {count : Nat}

/-- A span without length stays. -/
theorem niceSpan_of_beq (h : Scalar.isFinite a = true → (a == a) = true) : niceSpan zone a a count = .ok (a, a) := by
  have hstays : (!Scalar.isFinite a || !Scalar.isFinite a || a == a) = true := by
    cases hfinite : Scalar.isFinite a with
    | true => exact h hfinite
    | false => rfl
  unfold niceSpan
  cases decide (a < a) with
  | true => simp only [if_true, hstays]
  | false => simp only [if_neg Bool.false_ne_true, hstays, if_true]

/-- Nicing a span of time from its other end. -/
theorem niceSpan_swap (zone : Zone) (h : a < b) (hnot : ¬ b < a) (count : Nat) :
    niceSpan zone b a count = (niceSpan zone a b count).map Prod.swap := by
  unfold niceSpan
  rw [decide_eq_true h, decide_eq_false hnot]
  simp only [if_true, if_neg Bool.false_ne_true]
  split
  · rfl
  · cases (Interval.forSpan a b count).floor zone a with
    | error fault => rfl
    | ok lo => cases (Interval.forSpan a b count).ceil zone b <;> rfl

/-- A span is cut by an interval, which finds the boundaries around its ends. -/
theorem niceSpan_of_sorted (ha : Scalar.isFinite a = true) (hb : Scalar.isFinite b = true) (hsorted : ¬ b < a)
    (hdiffer : (a == b) = false) :
    niceSpan zone a b count = do
      let lo ← (Interval.forSpan a b count).floor zone a
      let hi ← (Interval.forSpan a b count).ceil zone b
      return (lo, hi) := by
  have hsorted : decide (b < a) = false := decide_eq_false hsorted
  unfold niceSpan
  simp only [hsorted, Bool.false_eq_true, if_false, ha, hb, Bool.not_true, Bool.false_or, hdiffer]

end

open Extended (finite)

theorem niceSpan_self (zone : Zone) (a : Extended) (count : Nat) : niceSpan zone a a count = .ok (a, a) := by
  refine niceSpan_of_beq fun hfinite => ?_
  obtain ⟨x, rfl⟩ := Extended.isFinite_iff.mp hfinite
  exact Extended.finite_beq.mpr rfl

end VisualEncoding.Calendar
