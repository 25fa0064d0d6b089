import VisualEncoding.Proofs.Value.Reversal

/-!
# Where keys are first seen

The categories of a list are its values without those whose key stands further ahead (`values_ofList`): each key once,
by the value that has it first (`showsFirst_ofList`). A category that has a place keeps it, whatever is inserted after
it (`position?_foldl_insert`).
-/

namespace VisualEncoding.Categories

variable {α : Type} [Scalar α] {c : Categories α} {v : Value α} {key : String} {i : Nat}

/-- The values of a list, each key where it is first seen. -/
def firstSeen : List (Value α) → List (Value α)
  | [] => []
  | v :: vs => v :: (firstSeen vs).filter fun w => w.key ≠ v.key

/-- A list shows each key of another one, once and in the order of that list, by the value that has it first there. -/
structure ShowsFirst (values shown : List (Value α)) : Prop where
  sublist : shown.Sublist values
  keys_nodup : (shown.map Value.key).Nodup
  find?_eq : ∀ key, shown.find? (fun v => v.key == key) = values.find? fun v => v.key == key

/-! ## Places that stay -/

theorem position?_insert_of_new (h : c.position? v.key = none) (key : String) :
    (c.insert v).position? key = if key = v.key then some c.size else c.position? key := by
  by_cases hkey : key = v.key
  · subst hkey
    rw [if_pos rfl, position?_insert_self, h]
    rfl
  · rw [if_neg hkey]
    unfold position?
    rw [values_insert_of_new h, List.findIdx?_append, List.findIdx?_singleton,
      if_neg (by simpa using Ne.symm hkey), Option.map_none, Option.or_none]

theorem position?_insert_of_some (h : c.position? key = some i) (v : Value α) :
    (c.insert v).position? key = some i := by
  cases hplace : c.position? v.key with
  | some j =>
    rw [insert_of_position? hplace]
    exact h
  | none =>
    have hne : key ≠ v.key := by
      rintro rfl
      nomatch hplace.symm.trans h
    rw [position?_insert_of_new hplace, if_neg hne]
    exact h

theorem position?_foldl_insert (h : c.position? key = some i) (vs : List (Value α)) :
    (vs.foldl insert c).position? key = some i := by
  induction vs generalizing c with
  | nil => exact h
  | cons v vs ih => exact ih (position?_insert_of_some h v)

theorem values_prefix_insert (c : Categories α) (v : Value α) : c.values <+: (c.insert v).values := by
  cases hplace : c.position? v.key with
  | some i => exact ⟨[], by rw [insert_of_position? hplace, List.append_nil]⟩
  | none => exact ⟨[v], (values_insert_of_new hplace).symm⟩

theorem values_prefix_foldl_insert (c : Categories α) (vs : List (Value α)) :
    c.values <+: (vs.foldl insert c).values := by
  induction vs generalizing c with
  | nil => exact List.prefix_rfl
  | cons v vs ih => exact (values_prefix_insert c v).trans (ih _)

/-! ## The categories of a list -/

theorem ofList_append (vs ws : List (Value α)) : ofList (vs ++ ws) = ws.foldl insert (ofList vs) :=
  List.foldl_append ..

/-- Every value of a list has a place among its categories. -/
theorem exists_position?_ofList {vs : List (Value α)} (hv : v ∈ vs) : ∃ i, (ofList vs).position? v.key = some i := by
  rw [← Option.ne_none_iff_exists', Ne, position?_eq_none_iff, not_not, mem_keys_ofList]
  exact List.mem_map_of_mem hv

/-- A value at the end of a list adds its key if no other has it. -/
theorem firstSeen_append_singleton (vs : List (Value α)) (v : Value α) :
    firstSeen (vs ++ [v]) = if v.key ∈ vs.map Value.key then firstSeen vs else firstSeen vs ++ [v] := by
  induction vs with
  | nil => rfl
  | cons w vs ih =>
    simp only [List.cons_append, firstSeen, ih, List.map_cons, List.mem_cons]
    by_cases hkey : v.key = w.key
    · rw [if_pos (show v.key = w.key ∨ v.key ∈ vs.map Value.key from .inl hkey)]
      split
      · rfl
      · rw [List.filter_append, List.filter_cons_of_neg (by simpa using hkey), List.filter_nil, List.append_nil]
    · simp only [hkey, false_or]
      split
      · rfl
      · rw [List.filter_append, List.filter_cons_of_pos (by simpa using hkey), List.filter_nil]

/-- The categories of a list are its values where their keys are first seen. -/
theorem values_ofList (vs : List (Value α)) : (ofList vs).values = firstSeen vs := by
  induction vs using List.reverseRecOn with
  | nil => rfl
  | append_singleton vs v ih =>
    rw [ofList_append_singleton, firstSeen_append_singleton, ← ih]
    by_cases hseen : v.key ∈ vs.map Value.key
    · have hplace : (ofList vs).position? v.key ≠ none := by
        rw [Ne, position?_eq_none_iff, not_not, mem_keys_ofList]
        exact hseen
      obtain ⟨i, hi⟩ := Option.ne_none_iff_exists'.mp hplace
      rw [if_pos hseen, insert_of_position? hi]
    · have hplace : (ofList vs).position? v.key = none := by
        rw [position?_eq_none_iff, mem_keys_ofList]
        exact hseen
      rw [if_neg hseen, values_insert_of_new hplace]

/-! ## Which values are kept -/

theorem firstSeen_sublist (vs : List (Value α)) : (firstSeen vs).Sublist vs := by
  induction vs with
  | nil => exact List.nil_sublist []
  | cons v vs ih => exact (List.filter_sublist.trans ih).cons_cons v

theorem find?_firstSeen (vs : List (Value α)) (key : String) :
    (firstSeen vs).find? (fun v => v.key == key) = vs.find? fun v => v.key == key := by
  induction vs with
  | nil => rfl
  | cons v vs ih =>
    rw [firstSeen, List.find?_cons, List.find?_cons]
    by_cases hkey : v.key = key
    · rw [beq_iff_eq.mpr hkey]
    · -- what is dropped from the rest does not have the key
      rw [beq_false_of_ne hkey, ← ih, List.find?_filter]
      refine congrArg (List.find? · _) (funext fun w => ?_)
      by_cases hw : w.key = key
      · simp [hw, Ne.symm hkey]
      · simp [hw]

/-- The categories of a list show each of its keys by the value that has it first. -/
theorem showsFirst_ofList (vs : List (Value α)) : ShowsFirst vs (ofList vs).values where
  sublist := by
    rw [values_ofList]
    exact firstSeen_sublist vs
  keys_nodup := (ofList vs).keys_nodup
  find?_eq key := by rw [values_ofList, find?_firstSeen]

/-- Values whose keys occur add nothing. -/
theorem ofList_append_of_keys {vs more : List (Value α)} (h : ∀ v ∈ more, v.key ∈ vs.map Value.key) :
    ofList (vs ++ more) = ofList vs := by
  rw [ofList_append]
  induction more with
  | nil => rfl
  | cons v more ih =>
    rw [List.forall_mem_cons] at h
    obtain ⟨w, hw, hkey⟩ := List.mem_map.mp h.1
    obtain ⟨i, hi⟩ := exists_position?_ofList hw
    rw [hkey] at hi
    rw [List.foldl_cons, insert_of_position? hi]
    exact ih h.2

end VisualEncoding.Categories
