import VisualEncoding.Proofs.Scale.Clamping
import VisualEncoding.Proofs.Scale.KeptLayout

/-!
# Bands tile the range

In exact arithmetic the bands of a layout stand in a row, one step from the next, and leave no more of a step than its
padding between them. Whatever changes led to the parameters, as long as they were made with real numbers, the paddings
not negative, the inner padding is at most a step and the alignment is a share (`Spacing`), so a step times the number
of steps in the range is no longer than the range (`step_mul_le`). That is all the layout needs:

> `after_tiles`: categories stand a step apart, in the direction of the range, and their bands do not overlap. Unless
> they are rounded, the bands lie in the range, the space that they leave free is divided by the alignment, and no two
> stand in one place if the range has length. If they are rounded, all is in whole numbers.

The alignment is the share of the free space that lies at the lower end of the range, whatever its direction.
-/

namespace VisualEncoding

open Extended (finite)

/-! ## Parameters as real numbers -/

/-- A change with real numbers for ends, and for paddings, which are not negative. Any number may be the alignment. -/
def Band.Change.IsProper : Band.Change Extended → Prop
  | .range start stop => (∃ x, start = finite x) ∧ ∃ y, stop = finite y
  | .align share => Scalar.isNaN share = false
  | .padding p | .paddingInner p | .paddingOuter p => ∃ x, 0 ≤ x ∧ p = finite x
  | .domain _ | .reversed | .round _ => True

/-- The parameters that place bands, in their bounds. -/
structure Spacing where
  start : ℝ
  stop : ℝ
  inner : ℝ
  outer : ℝ
  share : ℝ
  inner_nonneg : 0 ≤ inner
  inner_le_one : inner ≤ 1
  outer_nonneg : 0 ≤ outer
  share_nonneg : 0 ≤ share
  share_le_one : share ≤ 1

namespace Band

/-- Bands have parameters. -/
structure HasSpacing (s : Band Extended) (sp : Spacing) : Prop where
  start : s.start = finite sp.start
  stop : s.stop = finite sp.stop
  inner : s.paddingInner = finite sp.inner
  outer : s.paddingOuter = finite sp.outer
  align : s.align = finite sp.share

variable {s : Band Extended} {sp : Spacing}

theorem exists_spacing_ofKind (isPoint : Bool) : ∃ sp, (ofKind isPoint).HasSpacing sp := by
  have hinner : ∃ inner, 0 ≤ inner ∧ inner ≤ 1 ∧ (ofKind isPoint : Band Extended).paddingInner = finite inner := by
    cases isPoint with
    | true => exact ⟨1, zero_le_one, le_rfl, Extended.one_eq⟩
    | false => exact ⟨0, le_rfl, zero_le_one, Extended.zero_eq⟩
  obtain ⟨inner, hnonneg, hle, hinner⟩ := hinner
  exact ⟨⟨0, 1, inner, 0, 1 / 2, hnonneg, hle, le_rfl, by norm_num, by norm_num⟩,
    Extended.zero_eq, Extended.one_eq, hinner, Extended.zero_eq, Extended.half_eq⟩

theorem HasSpacing.withPaddingInner (h : s.HasSpacing sp) {p : ℝ} (hp : 0 ≤ p) :
    ∃ sp, (s.withPaddingInner (finite p)).HasSpacing sp := by
  unfold Band.withPaddingInner
  split
  · exact ⟨sp, h⟩
  · have hleast : Scalar.least (finite p) 1 = finite (min p 1) := by rw [Extended.one_eq, Extended.least_finite]
    exact ⟨{ sp with
        inner := min p 1, inner_nonneg := le_min hp zero_le_one, inner_le_one := min_le_right p 1 },
      h.start, h.stop, hleast, h.outer, h.align⟩

theorem HasSpacing.withPaddingOuter (h : s.HasSpacing sp) {p : ℝ} (hp : 0 ≤ p) :
    ∃ sp, (s.withPaddingOuter (finite p)).HasSpacing sp :=
  ⟨{ sp with outer := p, outer_nonneg := hp }, h.start, h.stop, h.inner, rfl, h.align⟩

/-- Whatever alignment is given, a share is set. -/
theorem HasSpacing.withAlign (h : s.HasSpacing sp) {share : Extended} (hshare : Scalar.isNaN share = false) :
    ∃ sp, (s.withAlign share).HasSpacing sp := by
  have hclamp : ∃ x, 0 ≤ x ∧ x ≤ 1 ∧ Scalar.clamp 0 1 share = finite x := by
    rw [Extended.zero_eq, Extended.one_eq]
    rcases Extended.clamp_cases zero_le_one hshare with ⟨-, hlow⟩ | ⟨x, -, hle, hle', hx⟩ | ⟨-, hhigh⟩
    · exact ⟨0, le_rfl, zero_le_one, hlow⟩
    · exact ⟨x, hle, hle', hx⟩
    · exact ⟨1, zero_le_one, le_rfl, hhigh⟩
  obtain ⟨x, hle, hle', hx⟩ := hclamp
  exact ⟨{ sp with share := x, share_nonneg := hle, share_le_one := hle' },
    h.start, h.stop, h.inner, h.outer, hx⟩

/-- A change keeps the parameters in their bounds. -/
theorem HasSpacing.change (h : s.HasSpacing sp) {c : Change Extended} (hc : c.IsProper) :
    ∃ sp, (s.change c).HasSpacing sp := by
  cases c with
  | domain => exact ⟨sp, h.start, h.stop, h.inner, h.outer, h.align⟩
  | range =>
    obtain ⟨⟨x, rfl⟩, y, rfl⟩ := hc
    exact ⟨{ sp with start := x, stop := y }, rfl, rfl, h.inner, h.outer, h.align⟩
  | reversed => exact ⟨{ sp with start := sp.stop, stop := sp.start }, h.stop, h.start, h.inner, h.outer, h.align⟩
  | align => exact h.withAlign hc
  | padding =>
    obtain ⟨p, hp, rfl⟩ := hc
    obtain ⟨sp', h'⟩ := h.withPaddingInner hp
    exact h'.withPaddingOuter hp
  | paddingInner =>
    obtain ⟨p, hp, rfl⟩ := hc
    exact h.withPaddingInner hp
  | paddingOuter =>
    obtain ⟨p, hp, rfl⟩ := hc
    exact h.withPaddingOuter hp
  | round => exact ⟨sp, h.start, h.stop, h.inner, h.outer, h.align⟩

theorem exists_spacing_after (isPoint : Bool) {changes : List (Change Extended)} (hproper : ∀ c ∈ changes, c.IsProper) :
    ∃ sp, (after isPoint changes).HasSpacing sp := by
  have hrun : ∀ s : Band Extended, (∃ sp, s.HasSpacing sp) → ∃ sp, (changes.foldl change s).HasSpacing sp := by
    induction changes with
    | nil => exact fun _ h => h
    | cons c changes ih =>
      rintro s ⟨sp, h⟩
      rw [List.forall_mem_cons] at hproper
      exact ih hproper.2 (s.change c) (h.change hproper.1)
  exact hrun _ (exists_spacing_ofKind isPoint)

end Band

/-! ## The bands in a row -/

namespace Spacing

variable {sp : Spacing} {n : ℕ} {lo hi : ℝ}

/-- The number of steps in the range, at least one. -/
noncomputable def parts (sp : Spacing) (n : ℕ) : ℝ := max (n - sp.inner + (sp.outer + sp.outer)) 1

theorem parts_pos : 0 < sp.parts n := lt_of_lt_of_le one_pos (le_max_right _ _)

theorem step_eq (sp : Spacing) (n : ℕ) (lo hi : ℝ) :
    (finite hi - finite lo) / Scalar.greatest (Scalar.ofInt n - finite sp.inner + finite sp.outer * 2) 1
      = finite ((hi - lo) / sp.parts n) := by
  have hparts : Scalar.greatest (Scalar.ofInt n - finite sp.inner + finite sp.outer * 2) 1 = finite (sp.parts n) := by
    simp only [Extended.ofInt_eq, Extended.ofNat_eq, Extended.finite_sub, Extended.finite_mul, Extended.finite_add,
      Extended.greatest_finite]
    norm_num [parts, mul_two]
  rw [hparts, Extended.finite_sub, Extended.finite_div parts_pos.ne']

/-- The bands with the padding between them are no longer than the range. -/
theorem step_mul_le (h : lo ≤ hi) : (hi - lo) / sp.parts n * (n - sp.inner) ≤ hi - lo := by
  have hparts : n - sp.inner ≤ sp.parts n := by
    refine le_trans ?_ (le_max_left _ _)
    linarith [sp.outer_nonneg]
  rw [div_mul_eq_mul_div, div_le_iff₀ parts_pos]
  exact mul_le_mul_of_nonneg_left hparts (sub_nonneg.mpr h)

/-- A band is a part of a step. -/
theorem mul_inner_nonneg {q : ℝ} (h : 0 ≤ q) : 0 ≤ q * (1 - sp.inner) :=
  mul_nonneg h (sub_nonneg.mpr sp.inner_le_one)

theorem mul_inner_le {q : ℝ} (h : 0 ≤ q) : q * (1 - sp.inner) ≤ q :=
  mul_le_of_le_one_right h (sub_le_self 1 sp.inner_nonneg)

end Spacing

/-- `n` bands of one width, a step apart from the first one on, in the interval from `lo` to `hi`. -/
structure IsRow (sp : Spacing) (round : Bool) (n : ℕ) (lo hi first step width : ℝ) : Prop where
  width_nonneg : 0 ≤ width
  width_le : width ≤ step
  exact : round = false → step = (hi - lo) / sp.parts n ∧ width = step * (1 - sp.inner) ∧
    first = lo + (hi - lo - step * (n - sp.inner)) * sp.share
  whole : round = true → ∃ a b c : ℤ, step = a ∧ width = b ∧ first = c

namespace Band

variable {s : Band Extended} {sp : Spacing} {lo hi : ℝ}

/-- The layout of bands in an ascending interval is a row. -/
theorem exists_row (h : s.HasSpacing sp) (hle : lo ≤ hi) :
    ∃ first step width, IsRow sp s.round s.domain.size lo hi first step width ∧
      s.ascendingLayout (finite lo) (finite hi) =
        { step := finite step
          bandwidth := finite width
          positions := (List.range s.domain.size).map fun i : ℕ => finite (first + step * i) } := by
  unfold ascendingLayout
  rw [h.inner, h.outer, h.align]
  generalize s.domain.size = n
  have hfirst : ∀ q : ℝ, finite lo + (finite hi - finite lo - finite q * (Scalar.ofInt n - finite sp.inner)) *
      finite sp.share = finite (lo + (hi - lo - q * (n - sp.inner)) * sp.share) := by
    intro q
    simp only [Extended.ofInt_eq, Extended.finite_sub, Extended.finite_mul, Extended.finite_add, Int.cast_natCast]
  have hwidth : ∀ q : ℝ, finite q * (1 - finite sp.inner) = finite (q * (1 - sp.inner)) := by
    intro q
    rw [Extended.one_eq, Extended.finite_sub, Extended.finite_mul]
  have hplace : ∀ (first q : ℝ) (i : ℕ), finite first + finite q * Scalar.ofInt i = finite (first + q * i) := by
    intro first q i
    rw [Extended.ofInt_eq, Extended.finite_mul, Extended.finite_add, Int.cast_natCast]
  dsimp only
  rw [Spacing.step_eq]
  have hnonneg : 0 ≤ (hi - lo) / sp.parts n := div_nonneg (sub_nonneg.mpr hle) Spacing.parts_pos.le
  cases s.round with
  | false =>
    simp only [if_neg Bool.false_ne_true, hfirst, hwidth, hplace]
    refine ⟨_, _, _, ⟨?_, ?_, fun _ => ⟨rfl, rfl, rfl⟩, fun h => nomatch h⟩, rfl⟩
    · exact Spacing.mul_inner_nonneg hnonneg
    · exact Spacing.mul_inner_le hnonneg
  | true =>
    simp only [Extended.floor_finite]
    have hfloor : 0 ≤ ⌊(hi - lo) / sp.parts n⌋ := Int.floor_nonneg.mpr hnonneg
    generalize ⌊(hi - lo) / sp.parts n⌋ = q at hfloor
    have hq : (0 : ℝ) ≤ q := Int.cast_nonneg hfloor
    simp only [if_true, hfirst, hwidth]
    -- the step is whole by now, so what is less than a step is rounded to no more than a step
    obtain ⟨b, hb, hnonneg, hle⟩ := Extended.exists_round_between (a := 0) (b := q)
      (by exact_mod_cast Spacing.mul_inner_nonneg hq) (Spacing.mul_inner_le hq)
    obtain ⟨c, hc, -, -⟩ := Extended.exists_round (lo + (hi - lo - q * (n - sp.inner)) * sp.share)
    rw [hb, hc]
    simp only [hplace]
    refine ⟨c, q, b, ⟨?_, ?_, fun h => (nomatch h), fun _ => ⟨q, b, c, rfl, rfl, rfl⟩⟩, rfl⟩
    · exact Int.cast_nonneg hnonneg
    · exact Int.cast_le.mpr hle

end Band

/-! ## Tiling -/

/-- Bands of one width stand a step apart, in the direction from `r₀` to `r₁`, and no two overlap. -/
structure Tiles (r₀ r₁ step width : ℝ) (place : ℕ → ℝ) : Prop where
  ascending : r₀ ≤ r₁ → ∀ i, place (i + 1) = place i + step
  descending : r₁ < r₀ → ∀ i, place (i + 1) = place i - step
  width_nonneg : 0 ≤ width
  width_le : width ≤ step
  apart : ∀ i j, i ≠ j → place i + width ≤ place j ∨ place j + width ≤ place i

/-- `n` bands lie between `r₀` and `r₁`, and the space that they leave free is divided between the lower and the upper
end. No two are in one place unless there is none. -/
structure Fills (r₀ r₁ share : ℝ) (n : ℕ) (width : ℝ) (place : ℕ → ℝ) : Prop where
  within : ∀ i < n, min r₀ r₁ ≤ place i ∧ place i + width ≤ max r₀ r₁
  share_nonneg : 0 ≤ share
  share_le_one : share ≤ 1
  free : 0 < n → ∃ free, 0 ≤ free ∧
    place (if r₁ < r₀ then n - 1 else 0) - min r₀ r₁ = free * share ∧
    max r₀ r₁ - (place (if r₁ < r₀ then 0 else n - 1) + width) = free * (1 - share)
  distinct : r₀ ≠ r₁ → ∀ i j, i ≠ j → place i ≠ place j

section Slots

variable {r₀ r₁ first step width : ℝ} {n i j : ℕ}

/-- How many steps the `i`-th of `n` categories stands from the first band. In a descending range the last category has
the first band. -/
noncomputable def slot (r₀ r₁ : ℝ) (n i : ℕ) : ℝ := if r₁ < r₀ then n - 1 - i else i

theorem slot_succ_le (h : i < j) :
    slot r₀ r₁ n i + 1 ≤ slot r₀ r₁ n j ∨ slot r₀ r₁ n j + 1 ≤ slot r₀ r₁ n i := by
  have hle : (i : ℝ) + 1 ≤ j := by exact_mod_cast h
  unfold slot
  split
  · right
    linarith
  · exact Or.inl hle

theorem slot_ne (h : i ≠ j) : slot r₀ r₁ n i ≠ slot r₀ r₁ n j := by
  unfold slot
  split
  · exact fun heq => h (Nat.cast_injective (sub_right_injective heq))
  · exact fun heq => h (Nat.cast_injective heq)

theorem slot_nonneg (h : i < n) : 0 ≤ slot r₀ r₁ n i := by
  have hle : (i : ℝ) + 1 ≤ n := by exact_mod_cast h
  unfold slot
  split
  · linarith
  · exact Nat.cast_nonneg i

theorem slot_le (h : i < n) : slot r₀ r₁ n i ≤ n - 1 := by
  have hle : (i : ℝ) + 1 ≤ n := by exact_mod_cast h
  unfold slot
  split
  · linarith [Nat.cast_nonneg (α := ℝ) i]
  · linarith

theorem exists_slot_eq (r₀ r₁ : ℝ) (n i : ℕ) : ∃ m : ℤ, slot r₀ r₁ n i = m := by
  unfold slot
  split
  · exact ⟨n - 1 - i, by push_cast; rfl⟩
  · exact ⟨i, (Int.cast_natCast i).symm⟩

theorem slot_lowest (hn : 0 < n) : slot r₀ r₁ n (if r₁ < r₀ then n - 1 else 0) = 0 := by
  unfold slot
  split
  · rw [Nat.cast_pred hn, sub_self]
  · exact Nat.cast_zero

theorem slot_highest (hn : 0 < n) : slot r₀ r₁ n (if r₁ < r₀ then 0 else n - 1) = n - 1 := by
  unfold slot
  split
  · rw [Nat.cast_zero, sub_zero]
  · exact Nat.cast_pred hn

/-- A band ends where the next one starts, or before. -/
theorem add_width_le (hwidth : width ≤ step) (hnonneg : 0 ≤ step) {k l : ℝ} (h : k + 1 ≤ l) :
    first + step * k + width ≤ first + step * l := by
  have hstep : step * (k + 1) ≤ step * l := mul_le_mul_of_nonneg_left h hnonneg
  linarith

variable {sp : Spacing} {round : Bool}

namespace IsRow

theorem tiles {lo hi : ℝ} (h : IsRow sp round n lo hi first step width) (r₀ r₁ : ℝ) :
    Tiles r₀ r₁ step width fun i => first + step * slot r₀ r₁ n i where
  ascending hle i := by
    dsimp only [slot]
    rw [if_neg hle.not_gt, if_neg hle.not_gt]
    push_cast
    ring
  descending hlt i := by
    dsimp only [slot]
    rw [if_pos hlt, if_pos hlt]
    push_cast
    ring
  width_nonneg := h.width_nonneg
  width_le := h.width_le
  apart i j hne := by
    have hnonneg : 0 ≤ step := h.width_nonneg.trans h.width_le
    rcases lt_or_gt_of_ne hne with hlt | hlt
    · exact (slot_succ_le hlt).imp (add_width_le h.width_le hnonneg) (add_width_le h.width_le hnonneg)
    · exact (slot_succ_le hlt).symm.imp (add_width_le h.width_le hnonneg) (add_width_le h.width_le hnonneg)

theorem fills (h : IsRow sp false n (min r₀ r₁) (max r₀ r₁) first step width) :
    Fills r₀ r₁ sp.share n width fun i => first + step * slot r₀ r₁ n i := by
  obtain ⟨hstep, hwidth, hfirst⟩ := h.exact rfl
  have hnonneg : 0 ≤ step := h.width_nonneg.trans h.width_le
  -- what is left of the range by the bands and the paddings between them
  have hfree : 0 ≤ max r₀ r₁ - min r₀ r₁ - step * (n - sp.inner) := by
    rw [hstep, sub_nonneg]
    exact Spacing.step_mul_le min_le_max
  have hbefore : first - min r₀ r₁ = (max r₀ r₁ - min r₀ r₁ - step * (n - sp.inner)) * sp.share := by
    rw [hfirst]
    ring
  have hafter : max r₀ r₁ - (first + step * (n - 1) + width) =
      (max r₀ r₁ - min r₀ r₁ - step * (n - sp.inner)) * (1 - sp.share) := by
    rw [hfirst, hwidth]
    ring
  have hwithin : ∀ i < n, min r₀ r₁ ≤ first + step * slot r₀ r₁ n i ∧
      first + step * slot r₀ r₁ n i + width ≤ max r₀ r₁ := by
    intro i hi
    have hlow : 0 ≤ step * slot r₀ r₁ n i := mul_nonneg hnonneg (slot_nonneg hi)
    have hhigh : step * slot r₀ r₁ n i ≤ step * (n - 1) := mul_le_mul_of_nonneg_left (slot_le hi) hnonneg
    have hspace := mul_nonneg hfree sp.share_nonneg
    have hspace' := mul_nonneg hfree (sub_nonneg.mpr sp.share_le_one)
    constructor <;> linarith
  have hdistinct : r₀ ≠ r₁ → ∀ i j, i ≠ j → first + step * slot r₀ r₁ n i ≠ first + step * slot r₀ r₁ n j := by
    intro hends i j hne heq
    have hpos : 0 < step := by
      rw [hstep]
      exact div_pos (sub_pos.mpr (min_lt_max.mpr hends)) Spacing.parts_pos
    exact slot_ne hne (mul_left_cancel₀ hpos.ne' (add_left_cancel heq))
  exact {
    within := hwithin
    share_nonneg := sp.share_nonneg
    share_le_one := sp.share_le_one
    free := by
      intro hn
      rw [slot_lowest hn, slot_highest hn, mul_zero, add_zero]
      exact ⟨_, hfree, hbefore, hafter⟩
    distinct := hdistinct }

end IsRow

end Slots

/-! ## Layouts -/

variable {s : Band Extended} {sp : Spacing}

/-- A layout is a row in the range, from either end. -/
theorem Band.exists_layout (h : s.HasSpacing sp) :
    ∃ first step width,
      IsRow sp s.round s.domain.size (min sp.start sp.stop) (max sp.start sp.stop) first step width ∧
      s.layout.step = finite step ∧ s.layout.bandwidth = finite width ∧
      ∀ i < s.domain.size,
        s.layout.positions[i]? = some (finite (first + step * slot sp.start sp.stop s.domain.size i)) := by
  unfold layout slot
  rw [h.start, h.stop]
  by_cases hlt : sp.stop < sp.start
  · -- positions are listed from the last one to the first
    rw [min_eq_right hlt.le, max_eq_left hlt.le, if_pos (Extended.finite_lt.mpr hlt)]
    obtain ⟨first, step, width, hrow, hlayout⟩ := exists_row h hlt.le
    rw [hlayout]
    refine ⟨first, step, width, hrow, rfl, rfl, fun i hi => ?_⟩
    have hslot : ((s.domain.size - 1 - i : ℕ) : ℝ) = s.domain.size - 1 - i := by
      rw [Nat.cast_sub (by omega), Nat.cast_sub (by omega), Nat.cast_one]
    dsimp only
    rw [List.getElem?_reverse (by rwa [List.length_map, List.length_range]), List.length_map, List.length_range,
      List.getElem?_map, List.getElem?_range (by omega), if_pos hlt, Option.map_some, hslot]
  · have hle := not_lt.mp hlt
    rw [min_eq_left hle, max_eq_right hle, if_neg (by rwa [Extended.finite_lt])]
    obtain ⟨first, step, width, hrow, hlayout⟩ := exists_row h hle
    rw [hlayout]
    refine ⟨first, step, width, hrow, rfl, rfl, fun i hi => ?_⟩
    dsimp only
    rw [List.getElem?_map, List.getElem?_range hi, if_neg hlt]
    rfl

namespace LaidBands

/-- The categories of bands stand in order, a step apart, and their bands do not overlap. Unless they are rounded they
fill the range as their alignment says; if they are, they lie on whole numbers. -/
theorem after_tiles (isPoint : Bool) {changes : List (Band.Change Extended)} (hproper : ∀ c ∈ changes, c.IsProper) :
    let bands := Band.inForce isPoint changes.reverse
    let s := after isPoint changes
    ∃ (r₀ r₁ share step width : ℝ) (place : ℕ → ℝ),
      bands.start = finite r₀ ∧ bands.stop = finite r₁ ∧ bands.align = finite share ∧
      s.layout.step = finite step ∧ s.layout.bandwidth = finite width ∧
      (∀ (v : Value Extended) (i : ℕ), bands.domain.keys[i]? = some v.key → s.apply v = .number (finite (place i))) ∧
      Tiles r₀ r₁ step width place ∧
      (bands.round = false → Fills r₀ r₁ share bands.domain.size width place) ∧
      (bands.round = true → (∃ m : ℤ, step = m) ∧ (∃ m : ℤ, width = m) ∧ ∀ i, ∃ m : ℤ, place i = m) := by
  intro bands s
  have hs : s = current bands := by
    show after isPoint changes = _
    rw [after_eq_current, Band.after_eq_inForce]
  obtain ⟨sp, h⟩ := Band.exists_spacing_after isPoint hproper
  rw [Band.after_eq_inForce] at h
  obtain ⟨first, step, width, hrow, hstep, hwidth, hpositions⟩ := Band.exists_layout h
  refine ⟨sp.start, sp.stop, sp.share, step, width,
    fun i => first + step * slot sp.start sp.stop bands.domain.size i,
    h.start, h.stop, h.align, ?_, ?_, ?_, hrow.tiles sp.start sp.stop, ?_, ?_⟩
  · rw [hs]
    exact hstep
  · rw [hs]
    exact hwidth
  · intro v i hi
    rw [hs, apply_current]
    obtain ⟨x, hx, happly⟩ := Band.apply_of_getElem? hi
    have hlt : i < bands.domain.size := by
      obtain ⟨hlength, -⟩ := List.getElem?_eq_some_iff.mp hi
      rwa [Categories.keys, List.length_map] at hlength
    rw [happly]
    exact congrArg Value.number (Option.some.inj (hx.symm.trans (hpositions i hlt)))
  · intro hround
    rw [hround] at hrow
    exact hrow.fills
  · intro hround
    obtain ⟨a, b, c, rfl, rfl, rfl⟩ := hrow.whole hround
    refine ⟨⟨a, rfl⟩, ⟨b, rfl⟩, fun i => ?_⟩
    obtain ⟨m, hm⟩ := exists_slot_eq sp.start sp.stop bands.domain.size i
    refine ⟨c + a * m, ?_⟩
    dsimp only
    rw [hm, Int.cast_add, Int.cast_mul]

/-- Two categories in a descending range, with paddings and all free space at the upper end. -/
noncomputable def twoBands : List (Band.Change Extended) :=
  [.range 0 10, .domain [.string "a", .string "b"], .padding (1 / 2), .reversed, .align (-1)]

theorem after_tiles_twoBands :
    (∀ c ∈ twoBands, c.IsProper) ∧
      ∃ step width a b : ℝ, (after false twoBands).layout.step = finite step ∧
        (after false twoBands).layout.bandwidth = finite width ∧
        (after false twoBands).apply (.string "a") = .number (finite a) ∧
        (after false twoBands).apply (.string "b") = .number (finite b) ∧
        b = a - step ∧ width ≤ step ∧ a ≠ b ∧ b = 0 ∧ a + width ≤ 10 := by
  have hproper : ∀ c ∈ twoBands, c.IsProper := by
    unfold twoBands
    simp only [List.forall_mem_cons, Band.Change.IsProper, true_and]
    exact ⟨⟨⟨0, Extended.zero_eq⟩, _, Extended.ofNat_eq 10⟩, ⟨1 / 2, by norm_num, Extended.half_eq⟩, rfl,
      fun _ h => nomatch h⟩
  obtain ⟨r₀, r₁, share, step, width, place, hstart, hstop, halign, hstep, hwidth, hplace, htiles, hfills, -⟩ :=
    after_tiles false hproper
  have hfills := hfills rfl
  have hr₀ : 10 = r₀ := by exact_mod_cast Extended.finite.inj hstart
  have hr₁ : 0 = r₁ := by exact_mod_cast Extended.finite.inj hstop
  have hshare : share = 0 := by
    have hclamp : Scalar.clamp 0 1 (-1) = finite share := halign
    rw [Extended.zero_eq, Extended.one_eq, Extended.neg_finite, Extended.clamp_finite] at hclamp
    rw [← Extended.finite.inj hclamp]
    norm_num
  subst hr₀ hr₁
  refine ⟨hproper, step, width, place 0, place 1, hstep, hwidth, hplace (.string "a") 0 rfl, hplace (.string "b") 1 rfl,
    htiles.descending (by norm_num) 0, htiles.width_le, hfills.distinct (by norm_num) 0 1 (by decide), ?_, ?_⟩
  · obtain ⟨free, -, hbelow, -⟩ := hfills.free (by decide)
    rw [hshare, mul_zero, if_pos (by norm_num), min_eq_right (by norm_num), sub_zero] at hbelow
    exact hbelow
  · have hwithin := (hfills.within 0 (by decide)).2
    rwa [max_eq_left (by norm_num)] at hwithin

end LaidBands

end VisualEncoding
