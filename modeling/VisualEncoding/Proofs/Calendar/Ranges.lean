import VisualEncoding.Proofs.Calendar.Spans

/-!
# The boundaries within a span

Near the present an interval lists the boundaries within a span from the first to the last, each once
(`Interval.range_lists`): the list starts at the first boundary that is not before the span, and one step on from a
boundary is the next. With what is known of single boundaries that makes up the contract of the intervals at the prime
meridian, in doubles as in exact arithmetic (`boundaries_of_forSpan`). In doubles it holds on every platform whose
logarithms and powers of ten are right to a thousandth:

> `forSpan_boundaries`: of an interval that a span is cut by, `floor` and `ceil` find the nearest boundaries and
> `range` finds all of them; so round ends only widen a span, and its ticks are the boundaries within it.
-/

namespace VisualEncoding

open Scalar (CountsExactly)

namespace Calendar

namespace Interval

variable {α : Type} [Scalar α] {i : Interval} {first last current stop : ℤ} {bs : List ℤ}

variable (α) in
/-- The boundaries from one millisecond to another, ascending. -/
structure Lists (i : Interval) (first last : ℤ) (bs : List ℤ) : Prop where
  ascending : bs.Pairwise (· < ·)
  mem_iff : ∀ ms, ms ∈ bs ↔ i.IsBoundary α ms ∧ first ≤ ms ∧ ms ≤ last

theorem lists_nil (h : last < first) : i.Lists α first last [] where
  ascending := .nil
  mem_iff _ := ⟨fun hmem => (nomatch hmem), fun hms => absurd (hms.2.1.trans hms.2.2) (Int.not_le.mpr h)⟩

/-- After a boundary the list goes on with the next. -/
theorem Lists.cons [CountsExactly α] {after : ℤ} (h : i.Stretch α current after) (hle : current ≤ last)
    (hlists : i.Lists α after last bs) : i.Lists α current last (current :: bs) where
  ascending := List.pairwise_cons.mpr ⟨fun _ hmem => h.lt.trans_le ((hlists.mem_iff _).mp hmem).2.1, hlists.ascending⟩
  mem_iff ms := by
    rw [List.mem_cons, hlists.mem_iff]
    constructor
    · rintro (rfl | ⟨hboundary, hafter, hlast⟩)
      · exact ⟨h.isBoundary_before, le_rfl, hle⟩
      · exact ⟨hboundary, h.lt.le.trans hafter, hlast⟩
    · rintro ⟨hboundary, hcurrent, hlast⟩
      rcases hcurrent.eq_or_lt with rfl | hlt
      · exact .inl rfl
      · exact .inr ⟨hboundary, h.after_le hboundary hlt, hlast⟩

/-- Before the first boundary there is nothing to be listed. -/
theorem Lists.of_isLeast (h : IsLeast {b | i.IsBoundary α b ∧ first ≤ b} current) (hlists : i.Lists α current last bs) :
    i.Lists α first last bs where
  ascending := hlists.ascending
  mem_iff ms := by
    rw [hlists.mem_iff]
    exact and_congr_right fun hboundary =>
      and_congr_left' ⟨fun hle => h.1.2.trans hle, fun hle => h.2 ⟨hboundary, hle⟩⟩

variable [CountsExactly α]

/-- From a boundary the loop lists the boundaries up to the stop, as many as are asked for. The induction is on the
milliseconds that are left. -/
theorem rangeFrom_lists (h : i.HasStretches α) (hstop : IsNear stop) (hboundary : i.IsBoundary α current)
    (hcurrent : -380000000000000 ≤ current) (hsmall : current ≤ 2 ^ 53) :
    ∃ bs, i.Lists α current stop bs ∧ ∀ limit, i.rangeFrom Zone.utc (Scalar.ofInt stop : α) limit (Scalar.ofInt current)
      = .ok ((bs.take limit).map Scalar.ofInt) := by
  induction hleft : (stop + 1 - current).toNat using Nat.strong_induction_on generalizing current with
  | h left ih =>
    have hcurrent' : |current| ≤ 2 ^ 53 := abs_le.mpr ⟨by omega, hsmall⟩
    rcases lt_or_ge stop current with hbeyond | hwithin
    · refine ⟨[], lists_nil hbeyond, fun limit => ?_⟩
      have hnot : ¬ (Scalar.ofInt current : α) ≤ Scalar.ofInt stop := by
        rw [CountsExactly.le_ofInt hcurrent' hstop.small]
        exact Int.not_le.mpr hbeyond
      cases limit with
      | zero => rfl
      | succ limit =>
        unfold rangeFrom
        rw [if_neg hnot, List.take_nil]
        rfl
    · have hge := hstop.ge
      -- the boundary starts a stretch, and the loop goes on where that ends
      obtain ⟨before, after, hstretch, hle, hlt⟩ := h current (by omega) (by omega)
      obtain rfl : current = before := le_antisymm (hstretch.le_before hboundary hlt) hle
      have hafter := hstretch.after_bound
      obtain ⟨bs, hlists, hrun⟩ := ih (stop + 1 - after).toNat (by omega) hstretch.floor_after (by omega) hafter rfl
      refine ⟨current :: bs, hlists.cons hstretch hwithin, fun limit => ?_⟩
      cases limit with
      | zero => rfl
      | succ limit =>
        have hyes : (Scalar.ofInt current : α) ≤ Scalar.ofInt stop :=
          (CountsExactly.le_ofInt hcurrent' hstop.small).mpr hwithin
        have hmore : ¬ (Scalar.ofInt after : α) ≤ Scalar.ofInt current := by
          rw [CountsExactly.le_ofInt (abs_le.mpr ⟨by omega, hafter⟩) hcurrent']
          exact Int.not_le.mpr hlt
        unfold rangeFrom
        rw [if_pos hyes, hstretch.next]
        show (if (Scalar.ofInt after : α) ≤ Scalar.ofInt current then _ else _) = _
        rw [if_neg hmore, hrun]
        rfl

/-- The boundaries within a span are listed, the first ten thousand of them at most. -/
theorem range_lists (h : i.HasStretches α) (hfirst : IsNear first) (hlast : IsNear last) :
    ∃ bs, i.Lists α first last bs ∧
      i.range Zone.utc (Scalar.ofInt first : α) (Scalar.ofInt last) = .ok ((bs.take rangeLimit).map Scalar.ofInt) := by
  have hlo := hfirst.le
  have hhi := hfirst.ge
  -- the first boundary ends the stretch of the millisecond before
  obtain ⟨before, after, hstretch, hle, hlt⟩ := h (first - 1) (by omega) (by omega)
  obtain ⟨hceil, hleast⟩ := hstretch.isLeast_ceil (show _ < first by omega) (by omega)
  obtain ⟨bs, hlists, hrun⟩ := rangeFrom_lists h hlast hstretch.floor_after (by omega) hstretch.after_bound
  refine ⟨bs, hlists.of_isLeast hleast, ?_⟩
  unfold range
  rw [hceil]
  exact hrun rangeLimit

end Interval

variable {α : Type} [Scalar α] [CountsExactly α] [Interval.CutsModerately α]

/-- The ticks of a span are the boundaries within it, from the start to the stop. -/
theorem spanTicks_lists {a b : ℤ} {count : ℕ} (ha : IsNear a) (hb : IsNear b) (hcount : 1 ≤ count) :
    ∃ bs, (Interval.forSpan (Scalar.ofInt (min a b) : α) (Scalar.ofInt (max a b)) count).Lists α (min a b) (max a b) bs ∧
      spanTicks Zone.utc (Scalar.ofInt a : α) (Scalar.ofInt b) count = .ok (
        if b < a then ((bs.take Interval.rangeLimit).map Scalar.ofInt).reverse
        else (bs.take Interval.rangeLimit).map Scalar.ofInt) := by
  have hcount' : decide (count = 0) = false := decide_eq_false (by omega)
  have hfinite := CountsExactly.isFinite_ofInt (α := α) ha.small
  have hfinite' := CountsExactly.isFinite_ofInt (α := α) hb.small
  rcases lt_or_ge b a with hlt | hle
  · have hreversed : (Scalar.ofInt b : α) < Scalar.ofInt a := (CountsExactly.lt_ofInt hb.small ha.small).mpr hlt
    obtain ⟨bs, hlists, hrange⟩ :=
      Interval.range_lists (Interval.hasStretches_forSpan (α := α) hb.nearby ha.nearby hcount) hb ha
    refine ⟨bs, by rwa [min_eq_right hlt.le, max_eq_left hlt.le], ?_⟩
    unfold spanTicks
    simp only [hcount', hfinite, hfinite', Bool.not_true, Bool.or_false, Bool.false_eq_true, if_false]
    rw [if_pos hreversed, hrange, if_pos hlt]
    rfl
  · have hsorted : ¬ (Scalar.ofInt b : α) < Scalar.ofInt a := by
      rw [CountsExactly.lt_ofInt hb.small ha.small]
      exact Int.not_lt.mpr hle
    obtain ⟨bs, hlists, hrange⟩ :=
      Interval.range_lists (Interval.hasStretches_forSpan (α := α) ha.nearby hb.nearby hcount) ha hb
    refine ⟨bs, by rwa [min_eq_left hle, max_eq_right hle], ?_⟩
    unfold spanTicks
    simp only [hcount', hfinite, hfinite', Bool.not_true, Bool.or_false, Bool.false_eq_true, if_false]
    rw [if_neg hsorted, hrange, if_neg (Int.not_lt.mpr hle)]

/-- Nicing a span moves its ends outward and keeps its direction. -/
theorem niceSpan_outward {a b : ℤ} {count : ℕ} (ha : IsNear a) (hb : IsNear b) (hcount : 1 ≤ count) :
    ∃ a' b' : ℤ, niceSpan Zone.utc (Scalar.ofInt a : α) (Scalar.ofInt b) count = .ok (Scalar.ofInt a', Scalar.ofInt b') ∧
      (a ≤ b → a' ≤ a ∧ b ≤ b') ∧ (b ≤ a → b' ≤ b ∧ a ≤ a') := by
  rcases Int.lt_trichotomy a b with hlt | rfl | hgt
  · obtain ⟨a', b', hnice, hle, hge⟩ := niceSpan_of_lt (α := α) hlt ha hb hcount
    exact ⟨a', b', hnice, fun _ => ⟨hle, hge⟩, fun hnot => absurd hlt (Int.not_lt.mpr hnot)⟩
  · exact ⟨a, a, niceSpan_ofInt_self _ ha.small, fun _ => ⟨le_rfl, le_rfl⟩, fun _ => ⟨le_rfl, le_rfl⟩⟩
  · obtain ⟨a', b', hnice, hle, hge⟩ := niceSpan_of_gt (α := α) hgt ha hb hcount
    exact ⟨a', b', hnice, fun hnot => absurd hgt (Int.not_lt.mpr hnot), fun _ => ⟨hle, hge⟩⟩

theorem boundaries_of_forSpan {u v : α} {count : ℕ} (hu : IsNearby u) (hv : IsNearby v) (hcount : 1 ≤ count) :
    let i := Interval.forSpan u v count
    (∀ t, IsNear t →
      (∃ before, i.floor Zone.utc (Scalar.ofInt t : α) = .ok (Scalar.ofInt before) ∧
        IsGreatest {b | i.IsBoundary α b ∧ b ≤ t} before) ∧
      ∃ after, i.ceil Zone.utc (Scalar.ofInt t : α) = .ok (Scalar.ofInt after) ∧
        IsLeast {b | i.IsBoundary α b ∧ t ≤ b} after) ∧
    ∀ a b, IsNear a → IsNear b → ∃ bs, i.Lists α a b bs ∧
      i.range Zone.utc (Scalar.ofInt a : α) (Scalar.ofInt b) = .ok ((bs.take Interval.rangeLimit).map Scalar.ofInt) := by
  intro i
  have hstretches : i.HasStretches α := Interval.hasStretches_forSpan hu hv hcount
  refine ⟨fun t ht => ⟨?_, ?_⟩, fun a b ha hb => Interval.range_lists hstretches ha hb⟩
  · have hlo := ht.le
    obtain ⟨before, _, hstretch, hle, hlt⟩ := hstretches t (by omega) ht.ge
    exact ⟨before, hstretch.isGreatest_floor hle hlt⟩
  · have hlo := ht.le
    have hhi := ht.ge
    obtain ⟨_, after, hstretch, hle, hlt⟩ := hstretches (t - 1) (by omega) (by omega)
    exact ⟨after, hstretch.isLeast_ceil (by omega) (by omega)⟩

/-- **Calendar intervals are right at the prime meridian.** Let an interval be the one that a span near the present is
cut by, in doubles on a platform with accurate functions, and let its boundaries be the milliseconds that `floor` leaves
as they are. Near the present `floor` finds the last boundary that is not after a millisecond and `ceil` the first that
is not before it, and `range` finds exactly the boundaries between two milliseconds, ascending, if there are no more
than it lists at most. So round ends only widen a span and keep its direction, and the ticks of a span are the
boundaries within it, each once, in its direction. -/
theorem forSpan_boundaries {m : MathLibrary} [m.IsAccurate] {u v : DoubleOf m} {count : ℕ} (hu : IsNearby u)
    (hv : IsNearby v) (hcount : 1 ≤ count) :
    let i := Interval.forSpan u v count
    (∀ t, IsNear t →
      (∃ before, i.floor Zone.utc (Scalar.ofInt t : DoubleOf m) = .ok (Scalar.ofInt before) ∧
        IsGreatest {b | i.IsBoundary (DoubleOf m) b ∧ b ≤ t} before) ∧
      ∃ after, i.ceil Zone.utc (Scalar.ofInt t : DoubleOf m) = .ok (Scalar.ofInt after) ∧
        IsLeast {b | i.IsBoundary (DoubleOf m) b ∧ t ≤ b} after) ∧
    (∀ a b, IsNear a → IsNear b → ∃ bs, i.Lists (DoubleOf m) a b bs ∧
      i.range Zone.utc (Scalar.ofInt a : DoubleOf m) (Scalar.ofInt b)
        = .ok ((bs.take Interval.rangeLimit).map Scalar.ofInt)) ∧
    (∀ a b, IsNear a → IsNear b → ∃ a' b',
      niceSpan Zone.utc (Scalar.ofInt a : DoubleOf m) (Scalar.ofInt b) count
        = .ok (Scalar.ofInt a', Scalar.ofInt b') ∧
        (a ≤ b → a' ≤ a ∧ b ≤ b') ∧ (b ≤ a → b' ≤ b ∧ a ≤ a')) ∧
    ∀ a b, IsNear a → IsNear b →
      ∃ bs, (Interval.forSpan (Scalar.ofInt (min a b) : DoubleOf m) (Scalar.ofInt (max a b)) count).Lists (DoubleOf m)
          (min a b) (max a b) bs ∧
        spanTicks Zone.utc (Scalar.ofInt a : DoubleOf m) (Scalar.ofInt b) count = .ok (
          if b < a then ((bs.take Interval.rangeLimit).map Scalar.ofInt).reverse
          else (bs.take Interval.rangeLimit).map Scalar.ofInt) := by
  intro i
  obtain ⟨hnearest, hrange⟩ := boundaries_of_forSpan hu hv hcount
  exact ⟨hnearest, hrange, fun a b ha hb => niceSpan_outward ha hb hcount, fun a b ha hb => spanTicks_lists ha hb hcount⟩

/-- The interval that cuts the first five days of 1970 into five parts has boundaries around the end of the first
second, with functions that round the exact results. -/
theorem forSpan_boundaries_five_days :
    let i := Interval.forSpan (Scalar.ofInt 0 : DoubleOf .rounded) (Scalar.ofInt 432000000) 5
    ∃ before after, i.floor Zone.utc (Scalar.ofInt 1000 : DoubleOf .rounded) = .ok (Scalar.ofInt before) ∧
      i.IsBoundary (DoubleOf .rounded) before ∧ before ≤ 1000 ∧
      i.ceil Zone.utc (Scalar.ofInt 1000 : DoubleOf .rounded) = .ok (Scalar.ofInt after) ∧
      i.IsBoundary (DoubleOf .rounded) after ∧ 1000 ≤ after := by
  intro i
  have hfirst : IsNear 0 := ⟨by decide, by decide⟩
  have hlast : IsNear 432000000 := ⟨by decide, by decide⟩
  obtain ⟨hnearest, -⟩ := forSpan_boundaries (m := .rounded) hfirst.nearby hlast.nearby (show 1 ≤ 5 by decide)
  obtain ⟨⟨before, hfloor, ⟨hbefore, hle⟩, -⟩, after, hceil, ⟨hafter, hge⟩, -⟩ := hnearest 1000 ⟨by decide, by decide⟩
  exact ⟨before, after, hfloor, hbefore, hle, hceil, hafter, hge⟩

end Calendar

end VisualEncoding
