import VisualEncoding.Value.Categories

/-!
# Places of categories

A category that is inserted takes the place after the others, unless its key is there already. What is looked up in a
table of the places is what `position?` finds (`lookup_map_zipIdx`).
-/

namespace VisualEncoding

/-- An entry for another key is passed over. -/
theorem lookup_cons_of_ne {κ β : Type} [BEq κ] [LawfulBEq κ] {key k : κ} {b : β}
    {entries : List (κ × β)} (h : k ≠ key) : ((key, b) :: entries).lookup k = entries.lookup k := by
  rw [List.lookup_cons, beq_false_of_ne h]

namespace Categories

variable {α : Type} [Scalar α] {c : Categories α} {v : Value α} {key : String} {i : Nat}

/-- Where a key stands depends on the keys alone. -/
theorem position?_eq_findIdx?_keys (c : Categories α) (key : String) :
    c.position? key = c.keys.findIdx? fun k => k == key := by
  unfold position? keys
  rw [List.findIdx?_map]
  rfl

/-- A key has no place if no value has it. -/
theorem position?_eq_none_iff : c.position? key = none ↔ key ∉ c.values.map Value.key := by
  unfold position?
  rw [List.findIdx?_eq_none_iff]
  constructor
  · intro h hmem
    obtain ⟨w, hw, rfl⟩ := List.mem_map.mp hmem
    simpa using h w hw
  · intro h w hw
    rw [beq_eq_false_iff_ne]
    rintro rfl
    exact h (List.mem_map_of_mem hw)

/-- Nothing is inserted twice. -/
theorem insert_of_position? (h : c.position? v.key = some i) : c.insert v = c := by
  have hmem : v.key ∈ c.values.map Value.key := by
    refine Decidable.byContradiction fun hnot => ?_
    rw [position?_eq_none_iff.mpr hnot] at h
    nomatch h
  unfold insert
  rw [dif_pos hmem]

/-- A new key goes to the end. -/
theorem values_insert_of_new (h : c.position? v.key = none) :
    (c.insert v).values = c.values ++ [v] := by
  unfold insert
  rw [dif_neg (position?_eq_none_iff.mp h)]

/-- What was inserted last has its place, which is the next one if its key is new. -/
theorem position?_insert_self (c : Categories α) (v : Value α) :
    (c.insert v).position? v.key = some ((c.position? v.key).getD c.size) := by
  cases hplace : c.position? v.key with
  | some i =>
    rw [insert_of_position? hplace, hplace]
    rfl
  | none =>
    have hold : c.values.findIdx? (fun w => w.key == v.key) = none := hplace
    unfold position?
    rw [values_insert_of_new hplace, List.findIdx?_append, hold, Option.none_or,
      List.findIdx?_singleton, if_pos (beq_self_eq_true v.key)]
    show some (0 + c.values.length) = some c.values.length
    rw [Nat.zero_add]

theorem ofList_append_singleton (vs : List (Value α)) (v : Value α) :
    ofList (vs ++ [v]) = (ofList vs).insert v :=
  List.foldl_append ..

/-! ## Tables of places -/

/-- What the first value with a key is looked up as is what stands for its place, counted from the `n`-th. -/
theorem lookup_map_zipIdx {β : Type} (f : Nat → β) (key : String) (values : List (Value α)) (n : Nat) :
    ((values.zipIdx n).map fun (v, i) => (v.key, f i)).lookup key
      = (values.findIdx? fun v => v.key == key).map fun i => f (n + i) := by
  induction values generalizing n with
  | nil => rfl
  | cons v values ih =>
    rw [List.zipIdx_cons, List.map_cons, List.findIdx?_cons]
    by_cases hkey : v.key = key
    · subst hkey
      rw [List.lookup_cons_self, if_pos (beq_self_eq_true v.key)]
      rfl
    · rw [lookup_cons_of_ne (Ne.symm hkey), ih, if_neg (by simpa using hkey), Option.map_map]
      refine congrArg (Option.map · _) (funext fun i => congrArg f ?_)
      show n + 1 + i = n + (i + 1)
      omega

end Categories

end VisualEncoding
