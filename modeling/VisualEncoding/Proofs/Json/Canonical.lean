import Mathlib
import VisualEncoding.Json.Basic

/-!
# Canonical trees

A tree that was read from a text holds only numbers that have a numeral (`Json.HoldsNumerals`). Put into its
canonical form it is well formed: the keys of every object ascend, so that none occurs twice
(`Json.HoldsNumerals.wellFormed_canonical`). Well-formed trees are their own canonical form
(`Json.WellFormed.canonical_eq`), and so are their parts.
-/

namespace VisualEncoding.Json

/-- A tree that a text can stand for: its integers have 64 bits, with or without a sign, and its other numbers
are finite doubles. -/
inductive HoldsNumerals : Json → Prop where
  | null : HoldsNumerals .null
  | bool (b : Bool) : HoldsNumerals (.bool b)
  | int {n : Int} (h : n.natAbs < 2 ^ 64) : HoldsNumerals (.int n)
  | float {x : Float} (h : x.isFinite = true) : HoldsNumerals (.float x)
  | string (s : String) : HoldsNumerals (.string s)
  | array {items : List Json} (h : ∀ j ∈ items, HoldsNumerals j) : HoldsNumerals (.array items)
  | object {members : List (String × Json)} (h : ∀ m ∈ members, HoldsNumerals m.2) :
      HoldsNumerals (.object members)

/-- A tree that a text can stand for, the keys of its objects ascending. -/
inductive WellFormed : Json → Prop where
  | null : WellFormed .null
  | bool (b : Bool) : WellFormed (.bool b)
  | int {n : Int} (h : n.natAbs < 2 ^ 64) : WellFormed (.int n)
  | float {x : Float} (h : x.isFinite = true) : WellFormed (.float x)
  | string (s : String) : WellFormed (.string s)
  | array {items : List Json} (h : ∀ j ∈ items, WellFormed j) : WellFormed (.array items)
  | object {members : List (String × Json)} (h : ∀ m ∈ members, WellFormed m.2)
      (hkeys : (members.map Prod.fst).Pairwise (· < ·)) : WellFormed (.object members)

theorem canonicalItems_eq (items : List Json) : canonicalItems items = items.map canonical := by
  induction items with
  | nil => rfl
  | cons j items ih => rw [canonicalItems, ih, List.map_cons]

theorem canonicalMembers_eq (members : List (String × Json)) :
    canonicalMembers members = members.map fun m => (m.1, m.2.canonical) := by
  induction members with
  | nil => rfl
  | cons m members ih => rw [canonicalMembers, ih, List.map_cons]

theorem canonical_array (items : List Json) : (array items).canonical = array (items.map canonical) := by
  rw [canonical, canonicalItems_eq]

theorem canonical_object (members : List (String × Json)) :
    (object members).canonical = object (sortMembers (members.map fun m => (m.1, m.2.canonical))) := by
  rw [canonical, canonicalMembers_eq]
  rfl

/-! ## Putting members in order -/

section Members

variable {k : String} {m n : String × Json} {members sorted : List (String × Json)}

theorem mem_insertMember (h : m ∈ insertMember n members) : m = n ∨ m ∈ members := by
  induction members with
  | nil => exact Or.inl (List.mem_singleton.mp h)
  | cons first rest ih =>
    unfold insertMember at h
    split at h
    · exact List.mem_cons.mp h
    · split at h
      · exact (List.mem_cons.mp h).imp_right (List.mem_cons_of_mem _)
      · rcases List.mem_cons.mp h with rfl | h
        · exact Or.inr List.mem_cons_self
        · exact (ih h).imp_right (List.mem_cons_of_mem _)

theorem mem_keys_insertMember :
    k ∈ (insertMember n members).map Prod.fst ↔ k = n.1 ∨ k ∈ members.map Prod.fst := by
  induction members with
  | nil => simp [insertMember]
  | cons first rest ih =>
    unfold insertMember
    split
    · exact List.mem_cons
    · split
      next heq =>
        -- the member that gives way has the same key
        rw [List.map_cons, List.map_cons, List.mem_cons, List.mem_cons, ← eq_of_beq heq]
        exact ⟨Or.inr, fun h => h.elim Or.inl id⟩
      next => rw [List.map_cons, List.map_cons, List.mem_cons, List.mem_cons, ih, or_left_comm]

theorem pairwise_insertMember (h : (members.map Prod.fst).Pairwise (· < ·)) :
    ((insertMember n members).map Prod.fst).Pairwise (· < ·) := by
  induction members with
  | nil => exact List.pairwise_singleton _ _
  | cons first rest ih =>
    obtain ⟨hfirst, hrest⟩ := List.pairwise_cons.mp h
    unfold insertMember
    split
    next hlt =>
      refine List.pairwise_cons.mpr ⟨fun k hk => ?_, h⟩
      rcases List.mem_cons.mp hk with rfl | hk
      · exact hlt
      · exact String.lt_trans hlt (hfirst k hk)
    next hnot =>
      split
      next heq =>
        rw [List.map_cons, eq_of_beq heq]
        exact List.pairwise_cons.mpr ⟨hfirst, hrest⟩
      next hne =>
        refine List.pairwise_cons.mpr ⟨fun k hk => ?_, ih hrest⟩
        rcases mem_keys_insertMember.mp hk with rfl | hk
        · -- what is neither before the key nor the key itself comes after it
          refine Decidable.byContradiction fun hafter => ?_
          exact hne (beq_iff_eq.mpr (String.le_antisymm (String.not_lt.mp hafter) (String.not_lt.mp hnot)))
        · exact hfirst k hk

/-- A member whose key comes after all others is put last. -/
theorem insertMember_of_lt (h : ∀ k ∈ members.map Prod.fst, k < n.1) : insertMember n members = members ++ [n] := by
  induction members with
  | nil => rfl
  | cons first rest ih =>
    have hfirst : first.1 < n.1 := h _ List.mem_cons_self
    have hrest : insertMember n rest = rest ++ [n] := ih fun k hk => h k (List.mem_cons_of_mem _ hk)
    unfold insertMember
    rw [if_neg (String.lt_asymm hfirst), if_neg, hrest]
    · rfl
    · rw [beq_iff_eq]
      intro heq
      rw [heq] at hfirst
      exact String.lt_irrefl _ hfirst

theorem sortMembers_append (members : List (String × Json)) (m : String × Json) :
    sortMembers (members ++ [m]) = insertMember m (sortMembers members) :=
  List.foldl_append

theorem mem_of_mem_sortMembers (h : m ∈ sortMembers members) : m ∈ members := by
  induction members using List.reverseRecOn with
  | nil => exact h
  | append_singleton members n ih =>
    rw [sortMembers_append] at h
    rcases mem_insertMember h with rfl | h
    · exact List.mem_append_right _ (List.mem_singleton_self _)
    · exact List.mem_append_left _ (ih h)

theorem mem_keys_sortMembers : k ∈ (sortMembers members).map Prod.fst ↔ k ∈ members.map Prod.fst := by
  induction members using List.reverseRecOn with
  | nil => exact Iff.rfl
  | append_singleton members n ih =>
    rw [sortMembers_append, mem_keys_insertMember, ih, List.map_append, List.mem_append, List.map_singleton,
      List.mem_singleton]
    exact Or.comm

theorem pairwise_sortMembers (members : List (String × Json)) :
    ((sortMembers members).map Prod.fst).Pairwise (· < ·) := by
  induction members using List.reverseRecOn with
  | nil => exact List.Pairwise.nil
  | append_singleton members n ih =>
    rw [sortMembers_append]
    exact pairwise_insertMember ih

/-- Members in order stay as they are. -/
theorem sortMembers_of_pairwise (h : (members.map Prod.fst).Pairwise (· < ·)) : sortMembers members = members := by
  induction members using List.reverseRecOn with
  | nil => rfl
  | append_singleton members n ih =>
    rw [List.map_append, List.pairwise_append] at h
    obtain ⟨hmembers, -, hlast⟩ := h
    rw [sortMembers_append, ih hmembers]
    exact insertMember_of_lt fun k hk => hlast k hk _ (List.mem_singleton_self _)

end Members

/-! ## Canonical forms -/

theorem HoldsNumerals.wellFormed_canonical {j : Json} (h : j.HoldsNumerals) : j.canonical.WellFormed := by
  induction h with
  | null => exact .null
  | bool b => exact .bool b
  | int h => exact .int h
  | float h => exact .float h
  | string s => exact .string s
  | array _ ih =>
    rw [canonical_array]
    refine .array fun j hj => ?_
    obtain ⟨i, hi, rfl⟩ := List.mem_map.mp hj
    exact ih i hi
  | object _ ih =>
    rw [canonical_object]
    refine .object (fun m hm => ?_) (pairwise_sortMembers _)
    obtain ⟨n, hn, rfl⟩ := List.mem_map.mp (mem_of_mem_sortMembers hm)
    exact ih n hn

/-- Well-formed trees are their own canonical form. -/
theorem WellFormed.canonical_eq {j : Json} (h : j.WellFormed) : j.canonical = j := by
  induction h with
  | array _ ih => rw [canonical_array, List.map_congr_left ih, List.map_id']
  | @object members _ hkeys ih =>
    have hmembers : members.map (fun m => (m.1, m.2.canonical)) = members := by
      rw [List.map_congr_left fun m hm => congrArg (Prod.mk m.1) (ih m hm), List.map_id']
    rw [canonical_object, hmembers, sortMembers_of_pairwise hkeys]
  | _ => rfl

end VisualEncoding.Json
