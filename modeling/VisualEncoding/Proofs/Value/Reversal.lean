import Mathlib.Data.List.Induction
import Mathlib.Data.List.Nodup
import VisualEncoding.Proofs.Value.Categories

/-!
# Categories from last to first

A category stands where its key is first seen, so a list that is reversed before its categories are taken
has each category where the list shows it last (`values_ofList_reverse`). Both ways lead to the same
categories, as to their keys and their number, and to the same order if no key repeats.
-/

namespace VisualEncoding.Categories

variable {α : Type} [Scalar α] {c : Categories α} {v : Value α} {key : String} {i : Nat}

/-- The values of a list, each key where it is last seen. -/
def lastSeen : List (Value α) → List (Value α)
  | [] => []
  | v :: vs => if v.key ∈ vs.map Value.key then lastSeen vs else v :: lastSeen vs

/-- The categories in reverse. -/
def reversed (c : Categories α) : Categories α where
  values := c.values.reverse
  keys_nodup := by
    rw [List.map_reverse, List.nodup_reverse]
    exact c.keys_nodup

theorem ext_values {c' : Categories α} (h : c.values = c'.values) : c = c' := by
  cases c
  cases h
  rfl

/-! ## Which keys there are -/

theorem mem_keys_insert : key ∈ (c.insert v).values.map Value.key ↔
    key ∈ c.values.map Value.key ∨ key = v.key := by
  cases hplace : c.position? v.key with
  | some i =>
    rw [insert_of_position? hplace]
    refine ⟨Or.inl, ?_⟩
    rintro (h | rfl)
    · exact h
    · refine Decidable.byContradiction fun hnot => ?_
      rw [position?_eq_none_iff.mpr hnot] at hplace
      nomatch hplace
  | none =>
    rw [values_insert_of_new hplace, List.map_append, List.mem_append]
    exact or_congr Iff.rfl List.mem_singleton

/-- The categories of a list are its keys. -/
theorem mem_keys_ofList (vs : List (Value α)) :
    key ∈ (ofList vs).values.map Value.key ↔ key ∈ vs.map Value.key := by
  induction vs using List.reverseRecOn with
  | nil => exact Iff.rfl
  | append_singleton vs v ih =>
    rw [ofList_append_singleton, mem_keys_insert, ih, List.map_append, List.mem_append]
    exact or_congr Iff.rfl List.mem_singleton.symm

/-- A reversed list has as many categories. -/
theorem size_ofList_reverse (vs : List (Value α)) : (ofList vs.reverse).size = (ofList vs).size := by
  have hperm : ((ofList vs.reverse).values.map Value.key).Perm ((ofList vs).values.map Value.key) := by
    refine (List.perm_ext_iff_of_nodup (ofList vs.reverse).keys_nodup (ofList vs).keys_nodup).mpr ?_
    intro key
    rw [mem_keys_ofList, mem_keys_ofList, List.map_reverse, List.mem_reverse]
  have hlength := hperm.length_eq
  rw [List.length_map, List.length_map] at hlength
  exact hlength

/-- A list without repeated keys is the list of its categories. -/
theorem values_ofList_of_nodup {vs : List (Value α)} (h : (vs.map Value.key).Nodup) :
    (ofList vs).values = vs := by
  induction vs using List.reverseRecOn with
  | nil => rfl
  | append_singleton vs v ih =>
    rw [List.map_append, List.nodup_append] at h
    obtain ⟨hvs, -, hdisjoint⟩ := h
    have hnew : (ofList vs).position? v.key = none := by
      rw [position?_eq_none_iff, mem_keys_ofList]
      intro hmem
      exact hdisjoint _ hmem _ (List.mem_singleton_self _) rfl
    rw [ofList_append_singleton, values_insert_of_new hnew, ih hvs]

/-! ## Where they stand -/

/-- Reversed first, a list keeps each key where it is last seen. -/
theorem values_ofList_reverse (vs : List (Value α)) :
    (ofList vs.reverse).values = (lastSeen vs).reverse := by
  induction vs with
  | nil => rfl
  | cons v vs ih =>
    rw [List.reverse_cons, ofList_append_singleton]
    have hseen : v.key ∈ (ofList vs.reverse).values.map Value.key ↔ v.key ∈ vs.map Value.key := by
      rw [mem_keys_ofList, List.map_reverse, List.mem_reverse]
    by_cases hlater : v.key ∈ vs.map Value.key
    · have hplace : (ofList vs.reverse).position? v.key ≠ none := by
        rw [Ne, position?_eq_none_iff, not_not, hseen]
        exact hlater
      obtain ⟨i, hi⟩ := Option.ne_none_iff_exists'.mp hplace
      rw [insert_of_position? hi, ih, lastSeen, if_pos hlater]
    · have hplace : (ofList vs.reverse).position? v.key = none := by
        rw [position?_eq_none_iff, hseen]
        exact hlater
      rw [values_insert_of_new hplace, ih, lastSeen, if_neg hlater, List.reverse_cons]

theorem nodup_lastSeen (vs : List (Value α)) : ((lastSeen vs).map Value.key).Nodup := by
  have h := (ofList vs.reverse).keys_nodup
  rw [values_ofList_reverse, List.map_reverse, List.nodup_reverse] at h
  exact h

theorem lastSeen_sublist (vs : List (Value α)) : (lastSeen vs).Sublist vs := by
  induction vs with
  | nil => exact .slnil
  | cons v vs ih =>
    rw [lastSeen]
    split
    · exact ih.cons v
    · exact ih.cons_cons v

theorem lastSeen_of_nodup {vs : List (Value α)} (h : (vs.map Value.key).Nodup) : lastSeen vs = vs := by
  induction vs with
  | nil => rfl
  | cons v vs ih =>
    rw [List.map_cons, List.nodup_cons] at h
    rw [lastSeen, if_neg h.1, ih h.2]

/-- The categories of the reversed list are those of the list without all but the last of each key, in
reverse. -/
theorem ofList_reverse (vs : List (Value α)) : ofList vs.reverse = (ofList (lastSeen vs)).reversed := by
  refine ext_values ?_
  show _ = (ofList (lastSeen vs)).values.reverse
  rw [values_ofList_of_nodup (nodup_lastSeen vs), values_ofList_reverse]

/-- As no key repeats, a key stands at a place if the value at that place has it. -/
theorem position?_eq_some_iff :
    c.position? key = some i ↔ ∃ v, c.values[i]? = some v ∧ v.key = key := by
  unfold position?
  rw [List.findIdx?_eq_some_iff_getElem]
  constructor
  · rintro ⟨hi, hkey, -⟩
    exact ⟨c.values[i], List.getElem?_eq_getElem hi, beq_iff_eq.mp hkey⟩
  · rintro ⟨v, hv, rfl⟩
    obtain ⟨hi, rfl⟩ := List.getElem?_eq_some_iff.mp hv
    refine ⟨hi, beq_self_eq_true _, ?_⟩
    intro j hj hkey
    have hinj := (List.nodup_iff_getElem?_ne_getElem?.mp c.keys_nodup) j i hj (by
      rw [List.length_map]
      exact hi)
    rw [List.getElem?_map, List.getElem?_map, List.getElem?_eq_getElem hi,
      List.getElem?_eq_getElem (Nat.lt_trans hj hi), Option.map_some, Option.map_some,
      beq_iff_eq.mp hkey] at hinj
    exact hinj rfl

/-- In reverse a key stands as far from the end as it stood from the start. -/
theorem position?_reversed (c : Categories α) (key : String) :
    c.reversed.position? key = (c.position? key).map fun i => c.size - 1 - i := by
  cases hplace : c.position? key with
  | none =>
    rw [position?_eq_none_iff] at hplace
    show c.reversed.position? key = none
    rw [position?_eq_none_iff]
    show key ∉ (c.values.reverse).map Value.key
    rw [List.map_reverse, List.mem_reverse]
    exact hplace
  | some i =>
    obtain ⟨v, hv, hkey⟩ := position?_eq_some_iff.mp hplace
    obtain ⟨hi, -⟩ := List.getElem?_eq_some_iff.mp hv
    rw [Option.map_some, position?_eq_some_iff]
    refine ⟨v, ?_, hkey⟩
    show c.values.reverse[c.values.length - 1 - i]? = some v
    rw [List.getElem?_reverse (by omega), ← hv]
    congr 1
    omega

end VisualEncoding.Categories
