import VisualEncoding.Proofs.Value.FirstSeen
import VisualEncoding.Scalar.Double
import VisualEncoding.Scale.IndexedOrdinal

/-!
# The index of categories

The places of categories can be kept in an index beside them. Entering a value changes both in one step, and neither if
the index has the key already, so that the index always says what a search of the categories says (`indexes_ofList`).

> `ofList_keeps_first`: of a list the first value of each key is kept, in the order of the list; the index has exactly
> the keys of the list, each with the place of the value that is kept for it; and a list that starts with what was kept
> and repeats its keys leads to the same values and the same index.
-/

namespace VisualEncoding.IndexedCategories

open Categories (firstSeen ShowsFirst)

variable {α : Type} [Scalar α] {t : IndexedCategories α} {c : Categories α}

/-- The index of some categories says where the keys of others are, and the values are the same. -/
structure Indexes (t : IndexedCategories α) (c : Categories α) : Prop where
  values_eq : t.values = c.values
  lookup_places : ∀ key, t.places.lookup key = c.position? key

/-- A value is entered at its place, which is the next one if its key is new, and the index says so afterwards. -/
theorem Indexes.enter (h : t.Indexes c) (v : Value α) :
    (t.enter v).1 = (c.position? v.key).getD c.size ∧ (t.enter v).2.Indexes (c.insert v) := by
  unfold IndexedCategories.enter
  rw [h.lookup_places]
  cases hplace : c.position? v.key with
  | some i =>
    rw [Categories.insert_of_position? hplace]
    exact ⟨rfl, h⟩
  | none =>
    have hsize : t.values.length = c.size := congrArg List.length h.values_eq
    refine ⟨hsize, ?_, fun key => ?_⟩
    · rw [Categories.values_insert_of_new hplace, ← h.values_eq]
    · rw [Categories.position?_insert_of_new hplace, ← hsize]
      by_cases hkey : key = v.key
      · subst hkey
        rw [if_pos rfl]
        exact List.lookup_cons_self
      · rw [if_neg hkey, ← h.lookup_places]
        exact lookup_cons_of_ne hkey

theorem indexes_empty : ({} : IndexedCategories α).Indexes .empty where
  values_eq := rfl
  lookup_places _ := rfl

theorem ofList_append_singleton (values : List (Value α)) (v : Value α) :
    ofList (values ++ [v]) = ((ofList values).enter v).2 :=
  List.foldl_append ..

theorem indexes_ofList (values : List (Value α)) : (ofList values).Indexes (.ofList values) := by
  induction values using List.reverseRecOn with
  | nil => exact indexes_empty
  | append_singleton values v ih =>
    rw [ofList_append_singleton, Categories.ofList_append_singleton]
    exact (ih.enter v).2

/-! ## Lists that lead to the same index -/

theorem values_ofList (values : List (Value α)) : (ofList values).values = firstSeen values := by
  rw [(indexes_ofList values).values_eq, Categories.values_ofList]

/-- The index has exactly the keys of the list. -/
theorem lookup_places_ofList_eq_none_iff {values : List (Value α)} {key : String} :
    (ofList values).places.lookup key = none ↔ key ∉ values.map Value.key := by
  rw [(indexes_ofList values).lookup_places, Categories.position?_eq_none_iff, Categories.mem_keys_ofList]

/-- The place of a key is that of the value which is kept for it. -/
theorem lookup_places_ofList_eq_some_iff {values : List (Value α)} {key : String} {i : Nat} :
    (ofList values).places.lookup key = some i ↔ ∃ v, (ofList values).values[i]? = some v ∧ v.key = key := by
  rw [(indexes_ofList values).lookup_places, Categories.position?_eq_some_iff, (indexes_ofList values).values_eq]

/-- A key that the index has is not entered again. -/
theorem ofList_append_singleton_of_mem {values : List (Value α)} {v : Value α} (h : v.key ∈ values.map Value.key) :
    ofList (values ++ [v]) = ofList values := by
  rw [ofList_append_singleton, enter]
  cases hplace : (ofList values).places.lookup v.key with
  | some i => rfl
  | none => exact absurd h (lookup_places_ofList_eq_none_iff.mp hplace)

theorem ofList_append_of_keys {values more : List (Value α)} (h : ∀ v ∈ more, v.key ∈ values.map Value.key) :
    ofList (values ++ more) = ofList values := by
  induction more using List.reverseRecOn with
  | nil => rw [List.append_nil]
  | append_singleton more v ih =>
    rw [List.forall_mem_append, List.forall_mem_singleton] at h
    rw [← List.append_assoc, ofList_append_singleton_of_mem, ih h.1]
    rw [List.map_append, List.mem_append]
    exact .inl h.2

/-- What is kept of a list leads to the same index as the list. -/
theorem ofList_firstSeen (values : List (Value α)) : ofList (firstSeen values) = ofList values := by
  induction values using List.reverseRecOn with
  | nil => rfl
  | append_singleton values v ih =>
    rw [Categories.firstSeen_append_singleton]
    split
    next hseen => rw [ih, ofList_append_singleton_of_mem hseen]
    next => rw [ofList_append_singleton, ih, ← ofList_append_singleton]

/-- **Of each key the first value is kept, and the index says where.** The values that are kept are a part of the list
in its order, each key once and by the value that has it first; they are the categories of the list. The index has the
keys of the list and no others, each with the place of its value. What is kept, with more values of these keys after it,
leads to the same values and the same index. -/
theorem ofList_keeps_first (values : List (Value α)) :
    ShowsFirst values (ofList values).values ∧ (ofList values).Indexes (.ofList values) ∧
    (∀ key, (ofList values).places.lookup key ≠ none ↔ key ∈ values.map Value.key) ∧
    (∀ key i, (ofList values).places.lookup key = some i ↔
      ∃ v, (ofList values).values[i]? = some v ∧ v.key = key) ∧
    ∀ more, (∀ v ∈ more, v.key ∈ values.map Value.key) → ofList ((ofList values).values ++ more) = ofList values := by
  refine ⟨?_, indexes_ofList values, fun key => ?_, fun key i => lookup_places_ofList_eq_some_iff, fun more hmore => ?_⟩
  · rw [(indexes_ofList values).values_eq]
    exact Categories.showsFirst_ofList values
  · rw [Ne, lookup_places_ofList_eq_none_iff, not_not]
  · have hkeys : ∀ v ∈ more, v.key ∈ (firstSeen values).map Value.key := by
      intro v hv
      rw [← Categories.values_ofList, Categories.mem_keys_ofList]
      exact hmore v hv
    rw [values_ofList, ofList_append_of_keys hkeys, ofList_firstSeen]

/-- A truth value and its name have one key, so the name is not kept, and neither is it when it comes again. -/
theorem ofList_keeps_first_truth :
    (∀ v ∈ [(.string "true" : Value Float)],
      v.key ∈ [(.boolean true : Value Float), .string "true", .string "b"].map Value.key) ∧
    (ofList [(.boolean true : Value Float), .string "true", .string "b"]).values = [.boolean true, .string "b"] ∧
    ofList ((ofList [(.boolean true : Value Float), .string "true", .string "b"]).values ++ [.string "true"])
      = ofList [.boolean true, .string "true", .string "b"] := by
  have hkeys : ∀ v ∈ [(.string "true" : Value Float)],
      v.key ∈ [(.boolean true : Value Float), .string "true", .string "b"].map Value.key := by
    intro v hv
    obtain rfl := List.mem_singleton.mp hv
    exact List.mem_cons_self
  obtain ⟨-, -, -, -, hsame⟩ := ofList_keeps_first [(.boolean true : Value Float), .string "true", .string "b"]
  exact ⟨hkeys, rfl, hsame _ hkeys⟩

end VisualEncoding.IndexedCategories
