import VisualEncoding.Proofs.Scale.UsableThresholds
import VisualEncoding.Proofs.Scale.WidenedDomains

/-!
# Equal parts

In exact arithmetic the thresholds of a quantize scale cut its interval into equal parts (`thresholds_ofEnds`). The
search for a number among them stops at the number of whole parts between the start and the number, but not behind the
last part (`countUpTo_cuts`). Nicing and taking in zero leave the cut of an interval that takes in the old one
(`exists_after`), so

> `after_parts`: after any sequence of them each number has the entry of the part in which it lies, the parts are of
> equal length and ascend with the entries, and a number outside has the entry of the first or of the last part.
-/

namespace VisualEncoding

open Extended (finite infinite)

/-! ## Parts of an interval of real numbers -/

/-- The ends of `k` equal parts of an interval, but the last. -/
noncomputable def cuts (k : ℕ) (a b : ℝ) : List ℝ :=
  (List.range (k - 1)).map fun i : ℕ => a + (i + 1) * ((b - a) / k)

/-- The part in which a number lies, of `k` equal parts of an interval, or else the one closest to it. -/
noncomputable def part (k : ℕ) (a b x : ℝ) : ℤ := max 0 (min (k - 1) ⌊k * (x - a) / (b - a)⌋)

variable {k : ℕ} {a b x y : ℝ}

theorem getElem?_cuts {i : ℕ} {c : ℝ} (h : (cuts k a b)[i]? = some c) :
    i < k - 1 ∧ c = a + (i + 1) * ((b - a) / k) := by
  unfold cuts at h
  rw [List.getElem?_map, Option.map_eq_some_iff] at h
  obtain ⟨j, hj, rfl⟩ := h
  obtain ⟨hlt, rfl⟩ := List.getElem?_eq_some_iff.mp hj
  rw [List.length_range] at hlt
  rw [List.getElem_range]
  exact ⟨hlt, rfl⟩

theorem length_cuts (k : ℕ) (a b : ℝ) : (cuts k a b).length = k - 1 := by
  unfold cuts
  rw [List.length_map, List.length_range]

theorem cuts_strict (h : a < b) (hk : 0 < k) : (cuts k a b).Pairwise (· < ·) := by
  have hstep : 0 < (b - a) / k := div_pos (sub_pos.mpr h) (Nat.cast_pos.mpr hk)
  unfold cuts
  rw [List.pairwise_map]
  refine List.pairwise_lt_range.imp fun {i j} hij => ?_
  have hcast : (i : ℝ) + 1 < j + 1 := by exact_mod_cast Nat.succ_lt_succ hij
  have hmul := mul_lt_mul_of_pos_right hcast hstep
  linarith

theorem part_mono (h : a < b) (hxy : x ≤ y) : part k a b x ≤ part k a b y := by
  have hlength := (sub_pos.mpr h).le
  have hfloor : ⌊k * (x - a) / (b - a)⌋ ≤ ⌊k * (y - a) / (b - a)⌋ := by
    refine Int.floor_le_floor ?_
    gcongr
  unfold part
  omega

/-- A part begins with a number in it. -/
theorem part_start (h : a < b) {i : ℕ} (hi : i < k) : part k a b (a + i * ((b - a) / k)) = i := by
  have hlength : b - a ≠ 0 := (sub_pos.mpr h).ne'
  have hk : (k : ℝ) ≠ 0 := Nat.cast_ne_zero.mpr (Nat.ne_zero_of_lt hi)
  have hscaled : k * (a + i * ((b - a) / k) - a) / (b - a) = (i : ℕ) := by
    field_simp
    ring
  unfold part
  rw [hscaled, Int.floor_natCast]
  omega

/-- The end of a part is not above a number if and only if the number lies behind the part. -/
theorem cut_le_iff (h : a < b) {i : ℕ} (hi : i < k - 1) :
    a + (i + 1) * ((b - a) / k) ≤ x ↔ i < (part k a b x).toNat := by
  have hlength := sub_pos.mpr h
  have hk : (0 : ℝ) < k := Nat.cast_pos.mpr (by omega)
  have hfloor : a + (i + 1) * ((b - a) / k) ≤ x ↔ (i + 1 : ℤ) ≤ ⌊k * (x - a) / (b - a)⌋ := by
    rw [Int.le_floor, le_div_iff₀ hlength, ← le_sub_iff_add_le', mul_div_assoc', div_le_iff₀ hk, mul_comm (x - a)]
    push_cast
    exact Iff.rfl
  rw [hfloor]
  unfold part
  omega

/-- The search among the ends of the parts finds the part of a number. -/
theorem countUpTo_cuts (h : a < b) (x : ℝ) :
    Order.countUpTo ((cuts k a b).map finite) (finite x) = (part k a b x).toNat := by
  refine Order.countUpTo_eq ?_ fun i c hc => ?_
  · rw [List.length_map, length_cuts]
    unfold part
    omega
  · rw [List.getElem?_map, Option.map_eq_some_iff] at hc
    obtain ⟨c, hc, rfl⟩ := hc
    obtain ⟨hi, rfl⟩ := getElem?_cuts hc
    rw [Extended.finite_le]
    exact cut_le_iff h hi

theorem not_finite_le_infinite (x : ℝ) : ¬ finite x ≤ infinite true := by
  rintro ⟨_, ⟨⟩, _, ⟨⟩, h⟩
  exact absurd h (EReal.bot_lt_coe x).not_ge

theorem finite_le_infinite (x : ℝ) : finite x ≤ infinite false := ⟨_, rfl, _, rfl, le_top⟩

/-- Negative infinity lies before all ends. -/
theorem countUpTo_cuts_below (k : ℕ) (a b : ℝ) :
    Order.countUpTo ((cuts k a b).map finite) (infinite true) = 0 := by
  refine Order.countUpTo_eq (Nat.zero_le _) fun i c hc => ?_
  obtain ⟨c, -, rfl⟩ := List.mem_map.mp (List.mem_of_getElem? hc)
  exact iff_of_false (not_finite_le_infinite c) (Nat.not_lt_zero i)

/-- Infinity lies behind all ends. -/
theorem countUpTo_cuts_above (k : ℕ) (a b : ℝ) :
    Order.countUpTo ((cuts k a b).map finite) (infinite false) = k - 1 := by
  refine Order.countUpTo_eq ?_ fun i c hc => ?_
  · rw [List.length_map, length_cuts]
  · obtain ⟨hi, -⟩ := List.getElem?_eq_some_iff.mp hc
    rw [List.length_map, length_cuts] at hi
    obtain ⟨c, -, rfl⟩ := List.mem_map.mp (List.mem_of_getElem? hc)
    exact iff_of_true (finite_le_infinite c) hi

/-! ## Scales -/

/-- An operation moves ends of real numbers outward. -/
theorem Widening.ends_widens (w : Widening) (x y : ℝ) :
    ∃ x' y', w.ends (finite x) (finite y) = (finite x', finite y') ∧ Ticks.Widens x y x' y' := by
  cases w with
  | nice count => exact Ticks.niceLinear_widens x y count
  | zero => exact includeZero_widens x y

namespace CutInterval

variable {range : List (Value Extended)}

theorem thresholds_ofEnds (hrange : range ≠ []) (a b : ℝ) :
    (ofEnds (finite a) (finite b) range).thresholds = (cuts range.length a b).map finite := by
  have hpos := List.length_pos_iff.mpr hrange
  show Quantize.thresholds { start := finite a, stop := finite b, range } = _
  unfold Quantize.thresholds cuts
  rw [List.map_map]
  refine List.map_congr_left fun i _ => ?_
  have hparts : range.length - 1 + 1 = range.length := Nat.sub_add_cancel hpos
  have hne : ((range.length - 1 : ℕ) : ℝ) + 1 ≠ 0 := by positivity
  simp only [Function.comp_apply, Extended.ofInt_eq, Extended.one_eq, Extended.finite_add, Extended.finite_sub,
    Extended.finite_mul]
  push_cast
  rw [Extended.finite_div hne]
  have hcast : (range.length : ℝ) = ((range.length - 1 : ℕ) : ℝ) + 1 := by
    exact_mod_cast hparts.symm
  rw [hcast]
  congr 1
  field_simp
  ring

section Steps

variable {α : Type} [Scalar α]

/-- A scale after an operation on its interval. -/
def widen (s : CutInterval α) : Widening → CutInterval α
  | .nice count => s.nice count
  | .zero => s.withZero

/-- A scale after operations on its interval, one after the other. -/
def after (s : CutInterval α) (steps : List Widening) : CutInterval α := steps.foldl widen s

theorem widen_ofEnds (a b : α) (range : List (Value α)) (w : Widening) :
    (ofEnds a b range).widen w = ofEnds (w.ends a b).1 (w.ends a b).2 range := by
  cases w <;> rfl

end Steps

/-- Operations leave the cut of an interval that takes in the old one. -/
theorem exists_after (h : x < y) (steps : List Widening) (range : List (Value Extended)) :
    ∃ a b, (ofEnds (finite x) (finite y) range).after steps = ofEnds (finite a) (finite b) range ∧
      a ≤ x ∧ y ≤ b := by
  induction steps generalizing x y with
  | nil => exact ⟨x, y, rfl, le_refl x, le_refl y⟩
  | cons w steps ih =>
    obtain ⟨x', y', hends, hwidens⟩ := w.ends_widens x y
    obtain ⟨-, hx, hy⟩ := hwidens.resolve_right fun hdown => hdown.1.not_gt h
    obtain ⟨a, b, hafter, ha, hb⟩ := ih (hx.trans_lt (h.trans_le hy))
    refine ⟨a, b, ?_, ha.trans hx, hy.trans hb⟩
    show ((ofEnds (finite x) (finite y) range).widen w).after steps = _
    rw [widen_ofEnds, hends]
    exact hafter

/-- A scale that gives equal parts of an interval of real numbers the entries of a range, from the first to the last. -/
structure CutsEqually (s : CutInterval Extended) (a b : ℝ) (range : List (Value Extended)) : Prop where
  domain : s.scale.domain = [.number (finite a), .number (finite b)]
  thresholds : s.thresholds = (cuts range.length a b).map finite
  /-- The thresholds that are kept answer like ones that are found for each question. -/
  apply_eq : ∀ v, s.apply v = s.scale.apply v
  strict : (cuts range.length a b).Pairwise (· < ·)
  /-- A number has the entry of its part. -/
  entry : ∀ z, range[(part range.length a b z).toNat]? = some (s.apply (.number (finite z)))
  below : range[0]? = some (s.apply (.number (infinite true)))
  above : range[range.length - 1]? = some (s.apply (.number (infinite false)))
  mono : ∀ z z', z ≤ z' → part range.length a b z ≤ part range.length a b z'
  /-- No part is empty. -/
  reached : ∀ i : ℕ, i < range.length → ∃ z, a ≤ z ∧ z < b ∧ part range.length a b z = i

theorem cutsEqually_ofEnds (hrange : range ≠ []) (h : a < b) :
    (ofEnds (finite a) (finite b) range).CutsEqually a b range := by
  have hpos := List.length_pos_iff.mpr hrange
  have hthresholds := thresholds_ofEnds hrange a b
  have hentry : ∀ {z : Extended}, Scalar.isNaN z = false →
      Order.countUpTo ((cuts range.length a b).map finite) z < range.length →
      range[Order.countUpTo ((cuts range.length a b).map finite) z]?
        = some ((ofEnds (finite a) (finite b) range).apply (.number z)) := by
    intro z hz hlt
    rw [apply_number _ hz, hthresholds]
    exact getElem?_entryFor hlt
  constructor
  case domain => rfl
  case thresholds => exact hthresholds
  case apply_eq => exact fun _ => rfl
  case strict => exact cuts_strict h hpos
  case entry =>
    intro z
    rw [← countUpTo_cuts h z]
    refine hentry rfl ?_
    rw [countUpTo_cuts h z]
    unfold part
    omega
  case below =>
    rw [← countUpTo_cuts_below range.length a b]
    refine hentry rfl ?_
    rw [countUpTo_cuts_below]
    exact hpos
  case above =>
    rw [← countUpTo_cuts_above range.length a b]
    refine hentry rfl ?_
    rw [countUpTo_cuts_above]
    omega
  case mono => exact fun z z' => part_mono h
  case reached =>
    intro i hi
    have hlength := sub_pos.mpr h
    have hk : (0 : ℝ) < range.length := Nat.cast_pos.mpr hpos
    refine ⟨a + i * ((b - a) / range.length), ?_, ?_, part_start h hi⟩
    · exact le_add_of_nonneg_right (by positivity)
    · have hlt : (i : ℝ) < range.length := Nat.cast_lt.mpr hi
      rw [← lt_sub_iff_add_lt', mul_div_assoc', div_lt_iff₀ hk, mul_comm (b - a)]
      exact mul_lt_mul_of_pos_right hlt hlength

/-- Whatever sequence of nicing and taking in zero an ascending interval goes through, it stays ascending and takes in
what it was, and the scale gives its equal parts the entries of the range. -/
theorem after_parts (hrange : range ≠ []) (h : x < y) (steps : List Widening) :
    ∃ a b, (ofEnds (finite x) (finite y) range).after steps = ofEnds (finite a) (finite b) range ∧
      a ≤ x ∧ y ≤ b ∧ a < b ∧ ((ofEnds (finite x) (finite y) range).after steps).CutsEqually a b range := by
  obtain ⟨a, b, hafter, ha, hb⟩ := exists_after h steps range
  have hab : a < b := ha.trans_lt (h.trans_le hb)
  refine ⟨a, b, hafter, ha, hb, hab, ?_⟩
  rw [hafter]
  exact cutsEqually_ofEnds hrange hab

/-- An interval above zero with three entries, after nicing and then taking in zero. -/
theorem after_parts_threeEntries :
    ([.string "a", .string "b", .string "c"] : List (Value Extended)) ≠ [] ∧ (2 : ℝ) < 9 ∧
      ∃ a b, (ofEnds (finite 2) (finite 9) [.string "a", .string "b", .string "c"]).after [.nice 3, .zero]
          = ofEnds (finite a) (finite b) [.string "a", .string "b", .string "c"] ∧
        a ≤ 2 ∧ 9 ≤ b ∧ a < b ∧
        ((ofEnds (finite 2) (finite 9) [.string "a", .string "b", .string "c"]).after [.nice 3, .zero]).CutsEqually a b
          [.string "a", .string "b", .string "c"] := by
  have hrange : ([.string "a", .string "b", .string "c"] : List (Value Extended)) ≠ [] := List.cons_ne_nil _ _
  have hlt : (2 : ℝ) < 9 := by norm_num
  exact ⟨hrange, hlt, after_parts hrange hlt [.nice 3, .zero]⟩

end CutInterval

end VisualEncoding
