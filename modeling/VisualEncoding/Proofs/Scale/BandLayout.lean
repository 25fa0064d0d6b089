import VisualEncoding.Proofs.Value.Reversal
import VisualEncoding.Scale.Band

/-!
# Bands seen from the other end

A band scale over a descending interval lays its bands out as over the ascending one and then puts the last
category first. So the categories in reverse over the interval with its ends swapped have the same bands
(`apply_mirrored`): each of the two reversals undoes the other. That needs no more of numbers than that not
both of two are the smaller. Over an interval from a number to itself nothing is reversed, and the bands lie in
one place because they have no width (`LevelLaws`).
-/

namespace VisualEncoding

/-- The laws by which the first `n` parts of an interval without length lie in one place. -/
structure Scalar.LevelLaws (α : Type) [Scalar α] (n : Nat) : Prop where
  mul_part : ∀ (a m : α) {i j : Nat}, i < n → j < n →
    (a - a) / greatest m 1 * ofInt i = (a - a) / greatest m 1 * ofInt j
  mul_floor_part : ∀ (a m : α) {i j : Nat}, i < n → j < n →
    floor ((a - a) / greatest m 1) * ofInt i = floor ((a - a) / greatest m 1) * ofInt j

theorem Scalar.LevelLaws.mono {α : Type} [Scalar α] {m n : Nat} (h : LevelLaws α n) (hle : m ≤ n) :
    LevelLaws α m where
  mul_part a x _ _ hi hj := h.mul_part a x (Nat.lt_of_lt_of_le hi hle) (Nat.lt_of_lt_of_le hj hle)
  mul_floor_part a x _ _ hi hj :=
    h.mul_floor_part a x (Nat.lt_of_lt_of_le hi hle) (Nat.lt_of_lt_of_le hj hle)

namespace Band

variable {α : Type} [Scalar α] {s : Band α} {domain : Categories α} {start stop : α}

/-- The same bands for other categories, over another interval. -/
def placed (s : Band α) (domain : Categories α) (start stop : α) : Band α :=
  { s with domain, start, stop }

/-- The categories in reverse, over the interval with its ends swapped. -/
def mirrored (s : Band α) : Band α := s.placed s.domain.reversed s.stop s.start

/-! ## Settings do not depend on the place -/

theorem withPaddingInner_placed (padding : α) :
    (s.placed domain start stop).withPaddingInner padding
      = (s.withPaddingInner padding).placed domain start stop := by
  unfold withPaddingInner
  show (if s.isPoint then _ else _) = _
  split <;> rfl

theorem withPadding_placed (padding : α) :
    (s.placed domain start stop).withPadding padding
      = (s.withPadding padding).placed domain start stop := by
  unfold withPadding
  rw [withPaddingInner_placed]
  rfl

/-- A setting that may be left out does not depend on the place if it does not where it is made. -/
theorem getD_placed {β : Type} (f : Band α → β → Band α)
    (h : ∀ s x, f (placed s domain start stop) x = (f s x).placed domain start stop)
    (s : Band α) (x? : Option β) :
    (x?.map (f (s.placed domain start stop))).getD (s.placed domain start stop)
      = ((x?.map (f s)).getD s).placed domain start stop := by
  cases x? with
  | none => rfl
  | some x => exact h s x

/-! ## Layout -/

/-- A layout depends on the number of categories alone. -/
theorem ascendingLayout_placed (h : domain.size = s.domain.size) (lo hi : α) :
    (s.placed domain start stop).ascendingLayout lo hi = s.ascendingLayout lo hi := by
  unfold ascendingLayout
  show (let n : α := Scalar.ofInt domain.size; _) = _
  rw [show (s.placed domain start stop).domain.size = domain.size from rfl, h]
  rfl

/-- As many other categories have the same layout. -/
theorem layout_withDomain {values : List (Value α)} (h : (Categories.ofList values).size = s.domain.size) :
    (s.withDomain values).layout = s.layout := by
  have hplaced : s.withDomain values = s.placed (.ofList values) s.start s.stop := rfl
  unfold layout
  rw [hplaced, ascendingLayout_placed h, ascendingLayout_placed h]
  rfl

theorem length_positions_ascendingLayout (lo hi : α) :
    (s.ascendingLayout lo hi).positions.length = s.domain.size := by
  show ((List.range s.domain.size).map _).length = s.domain.size
  rw [List.length_map, List.length_range]

theorem length_positions_layout (s : Band α) : s.layout.positions.length = s.domain.size := by
  unfold layout
  split
  · show (List.reverse _).length = _
    rw [List.length_reverse, length_positions_ascendingLayout]
  · exact length_positions_ascendingLayout ..

/-- Positions a step apart are all one position if the step has no width. -/
theorem reverse_map_range {first step : α} {n : Nat}
    (h : ∀ i j : Nat, i < n → j < n → step * Scalar.ofInt i = step * Scalar.ofInt j) :
    ((List.range n).map fun i : Nat => first + step * Scalar.ofInt i).reverse
      = (List.range n).map fun i : Nat => first + step * Scalar.ofInt i := by
  rw [← List.map_reverse]
  refine List.ext_getElem ?_ ?_
  · rw [List.length_map, List.length_map, List.length_reverse]
  · intro i _ hi
    rw [List.length_map, List.length_range] at hi
    rw [List.getElem_map, List.getElem_map, List.getElem_reverse, List.getElem_range, List.getElem_range,
      List.length_range, h _ i (by omega) hi]

/-- The bands over an interval without length are all in one place. -/
theorem reverse_positions_of_level (s : Band α) (h : Scalar.LevelLaws α s.domain.size) (a : α) :
    (s.ascendingLayout a a).positions.reverse = (s.ascendingLayout a a).positions := by
  refine reverse_map_range ?_
  intro i j hi hj
  split
  · exact h.mul_floor_part _ _ hi hj
  · exact h.mul_part _ _ hi hj

/-- Seen from the other end the bands are the same, in reverse. -/
theorem layout_mirrored [Std.Asymm (α := α) (· < ·)]
    (hends : s.start < s.stop ∨ s.stop < s.start ∨ s.start = s.stop ∧ Scalar.LevelLaws α s.domain.size) :
    s.mirrored.layout = { s.layout with positions := s.layout.positions.reverse } := by
  have hsize : s.domain.reversed.size = s.domain.size := List.length_reverse
  unfold layout
  rw [mirrored, ascendingLayout_placed hsize, ascendingLayout_placed hsize]
  show (if s.start < s.stop then _ else _) = _
  rcases hends with hup | hdown | ⟨hlevel, hlaws⟩
  · rw [if_pos hup, if_neg (Std.Asymm.asymm _ _ hup)]
    rfl
  · rw [if_neg (Std.Asymm.asymm _ _ hdown), if_pos hdown]
    dsimp only
    rw [List.reverse_reverse]
    rfl
  · show (if s.start < s.stop then _ else s.ascendingLayout s.stop s.start) = _
    rw [hlevel]
    have hirrefl : ¬ s.stop < s.stop := fun h => Std.Asymm.asymm _ _ h h
    rw [if_neg hirrefl, if_neg hirrefl, reverse_positions_of_level s hlaws]

/-- Seen from the other end every value is in the same place. -/
theorem apply_mirrored [Std.Asymm (α := α) (· < ·)]
    (hends : s.start < s.stop ∨ s.stop < s.start ∨ s.start = s.stop ∧ Scalar.LevelLaws α s.domain.size)
    (v : Value α) : s.mirrored.apply v = s.apply v := by
  unfold apply positionIn
  rw [layout_mirrored hends]
  show Value.ofNumber? ((s.domain.reversed.position? v.key).bind _) = _
  rw [Categories.position?_reversed]
  cases hplace : s.domain.position? v.key with
  | none => rfl
  | some i =>
    obtain ⟨w, hw, -⟩ := Categories.position?_eq_some_iff.mp hplace
    obtain ⟨hi, -⟩ := List.getElem?_eq_some_iff.mp hw
    have hlength : s.layout.positions.length = s.domain.values.length := length_positions_layout s
    show Value.ofNumber? (s.layout.positions.reverse[s.domain.values.length - 1 - i]?)
      = Value.ofNumber? s.layout.positions[i]?
    rw [List.getElem?_reverse (by omega)]
    congr 2
    omega

end Band

end VisualEncoding
