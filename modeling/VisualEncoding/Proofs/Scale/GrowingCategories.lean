import VisualEncoding.Proofs.Color.InTurn
import VisualEncoding.Proofs.Value.CategoryIndex

/-!
# Categories that grow

A look-up appends a category that is new, and leaves the others where they are. Of a place that was given once, all
later scales know (`Categories.position?_foldl_insert`), so what a scale has answered can be read off the categories
that it ends with (`answers_apply`).

The places can be kept in an index (`Proofs.Value.CategoryIndex`). It says what a search of the categories says
(`IndexedOrdinal.Indexes`), at first and after each look-up.

> `after_ofList`: the domain that a scale ends with lists the declared values and the ones looked up, each key where it
> is first seen, and the answers are the entries of their places in it. From then on a look-up of any of these values
> gives the same entry and leaves the scale as it is.
-/

namespace VisualEncoding

variable {α : Type} [Scalar α]

open Categories (firstSeen)

namespace Ordinal

/-- The scale that look-ups one after the other leave. -/
def after (s : Ordinal α) (vs : List (Value α)) : Ordinal α := vs.foldl (fun s v => (s.apply v).2) s

theorem after_eq (s : Ordinal α) (vs : List (Value α)) :
    s.after vs = { s with domain := vs.foldl Categories.insert s.domain } := by
  induction vs generalizing s with
  | nil => rfl
  | cons v vs ih =>
    show ((s.apply v).2).after vs = _
    rw [ih, apply_eq]
    rfl

theorem after_append (s : Ordinal α) (vs ws : List (Value α)) : s.after (vs ++ ws) = (s.after vs).after ws :=
  List.foldl_append ..

theorem domain_after_ofList (domain range vs : List (Value α)) :
    ((ofList domain range).after vs).domain = .ofList (domain ++ vs) := by
  rw [after_eq, Categories.ofList_append]
  rfl

theorem slot_eq_cycled (s : Ordinal α) (i : Nat) : s.slot i = cycled s.range i := by
  unfold slot cycled
  split
  next hempty =>
    rw [hempty]
    rfl
  next hsome =>
    rw [List.getElem?_eq_getElem (Nat.mod_lt i (List.length_pos_iff.mpr hsome))]
    rfl

theorem range_apply (s : Ordinal α) (v : Value α) : (s.apply v).2.range = s.range := by
  rw [apply_eq]

/-- The answers are the entries of the places in the last of the domains. -/
theorem answers_apply (s : Ordinal α) (vs : List (Value α)) :
    List.Forall₂ (fun v entry => ∃ i, (s.after vs).domain.position? v.key = some i ∧ entry = cycled s.range i)
      vs (answers apply s vs) := by
  induction vs generalizing s with
  | nil => exact .nil
  | cons v vs ih =>
    refine .cons ⟨(s.domain.position? v.key).getD s.domain.size, ?_, ?_⟩ ?_
    · rw [after_eq]
      exact Categories.position?_foldl_insert (Categories.position?_insert_self s.domain v) vs
    · rw [apply_eq, slot_eq_cycled]
    · have hrest := ih (s.apply v).2
      rw [range_apply] at hrest
      exact hrest

/-- A value that has a place keeps it, and its entry. -/
theorem apply_after_of_position? {s : Ordinal α} {v : Value α} {i : Nat} (h : s.domain.position? v.key = some i)
    (later : List (Value α)) : (s.after later).apply v = (cycled s.range i, s.after later) := by
  have hplace : (s.after later).domain.position? v.key = some i := by
    rw [after_eq]
    exact Categories.position?_foldl_insert h later
  rw [apply_eq, hplace, Categories.insert_of_position? hplace, Option.getD_some, slot_eq_cycled, after_eq]

end Ordinal

/-! ## The index -/

namespace IndexedOrdinal

/-- The scale that look-ups one after the other leave. -/
def after (s : IndexedOrdinal α) (vs : List (Value α)) : IndexedOrdinal α := vs.foldl (fun s v => (s.apply v).2) s

/-- A scale with the same range and categories, and an index of them. -/
structure Indexes (t : IndexedOrdinal α) (s : Ordinal α) : Prop where
  range_eq : t.range = s.range
  domain : t.domain.Indexes s.domain

variable {t : IndexedOrdinal α} {s : Ordinal α}

/-- Both scales give a value the same entry, and the index is that of the categories again. -/
theorem Indexes.apply (h : t.Indexes s) (v : Value α) :
    (t.apply v).1 = (s.apply v).1 ∧ (t.apply v).2.Indexes (s.apply v).2 := by
  obtain ⟨hplace, hdomain⟩ := h.domain.enter v
  rw [Ordinal.apply_eq, Ordinal.slot_eq_cycled, ← h.range_eq, ← hplace]
  unfold IndexedOrdinal.apply
  cases hfirst : t.domain.places.lookup v.key with
  | some i =>
    -- a key that is found is not entered, and would be found again
    have henter : t.domain.enter v = (i, t.domain) := by rw [IndexedCategories.enter, hfirst]
    rw [henter] at hdomain ⊢
    exact ⟨rfl, rfl, hdomain⟩
  | none => exact ⟨rfl, rfl, hdomain⟩

theorem Indexes.after (h : t.Indexes s) (vs : List (Value α)) : (t.after vs).Indexes (s.after vs) := by
  induction vs generalizing t s with
  | nil => exact h
  | cons v vs ih => exact ih (h.apply v).2

theorem indexes_ofList (domain range : List (Value α)) : (ofList domain range).Indexes (.ofList domain range) where
  range_eq := rfl
  domain := IndexedCategories.indexes_ofList domain

theorem Indexes.answers_eq (h : t.Indexes s) (vs : List (Value α)) :
    answers IndexedOrdinal.apply t vs = answers Ordinal.apply s vs :=
  VisualEncoding.answers_eq (fun _ _ v _ hrelated => hrelated.apply v) (fun v (hv : v ∈ vs) => hv) h

end IndexedOrdinal

/-! ## Growing from a list -/

/-- **A scale only grows.** The domain after look-ups lists the declared values and those looked up, each key where it
is first seen, with the declared ones in front. The answers are the entries of the places in that list, and of a value
in it all later scales give the same entry without a change. An index that is kept beside it stays that of the list. -/
theorem Ordinal.after_ofList (domain range vs : List (Value α)) :
    ((ofList domain range).after vs).domain.values = firstSeen (domain ++ vs) ∧
    firstSeen domain <+: firstSeen (domain ++ vs) ∧ ((firstSeen (domain ++ vs)).map Value.key).Nodup ∧
    List.Forall₂ (fun v entry => ∃ i, (firstSeen (domain ++ vs)).findIdx? (fun w => w.key == v.key) = some i ∧
      entry = cycled range i) vs (answers apply (ofList domain range) vs) ∧
    (∀ v ∈ domain ++ vs, ∃ i, (firstSeen (domain ++ vs)).findIdx? (fun w => w.key == v.key) = some i ∧
      ∀ later, ((ofList domain range).after (vs ++ later)).apply v
        = (cycled range i, (ofList domain range).after (vs ++ later))) ∧
    answers IndexedOrdinal.apply (.ofList domain range) vs = answers apply (ofList domain range) vs ∧
    ((IndexedOrdinal.ofList domain range).after vs).Indexes ((ofList domain range).after vs) := by
  have hdomain := domain_after_ofList domain range vs
  have hvalues : ((ofList domain range).after vs).domain.values = firstSeen (domain ++ vs) := by
    rw [hdomain, Categories.values_ofList]
  have hplace : ∀ key, ((ofList domain range).after vs).domain.position? key
      = (firstSeen (domain ++ vs)).findIdx? fun w => w.key == key := by
    intro key
    rw [← hvalues]
    rfl
  have hindexes := IndexedOrdinal.indexes_ofList domain range
  refine ⟨hvalues, ?_, hvalues ▸ Categories.keys_nodup _, ?_, fun v hv => ?_, hindexes.answers_eq vs,
    hindexes.after vs⟩
  · rw [← Categories.values_ofList, ← Categories.values_ofList, Categories.ofList_append]
    exact Categories.values_prefix_foldl_insert ..
  · simp only [← hplace]
    exact answers_apply (ofList domain range) vs
  · obtain ⟨i, hi⟩ := Categories.exists_position?_ofList hv
    rw [← hdomain] at hi
    refine ⟨i, hplace v.key ▸ hi, fun later => ?_⟩
    rw [after_append, apply_after_of_position? hi later, after_eq]
    rfl

/-- A value that was met first after the declared one has the second entry ever after. -/
theorem Ordinal.after_ofList_metFirst :
    (.string "z" : Value Float) ∈ [.string "a"] ++ [.string "z", .string "y"] ∧
      ∀ later, (((ofList [.string "a"] [.number (1 : Float), .number 2]).after
        ([.string "z", .string "y"] ++ later)).apply (.string "z")).1 = .number 2 := by
  have hmem : (.string "z" : Value Float) ∈ [.string "a"] ++ [.string "z", .string "y"] :=
    List.mem_cons_of_mem _ List.mem_cons_self
  refine ⟨hmem, fun later => ?_⟩
  obtain ⟨-, -, -, -, hstays, -⟩ :=
    after_ofList [.string "a"] [.number (1 : Float), .number 2] [.string "z", .string "y"]
  obtain ⟨i, hplace, happly⟩ := hstays _ hmem
  cases (show some 1 = some i from hplace)
  exact congrArg Prod.fst (happly later)

end VisualEncoding
