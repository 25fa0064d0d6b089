import VisualEncoding.Order.Bisect
import VisualEncoding.Proofs.Scalar.Ordered

/-!
# Searching finds the border

Where the positions that satisfy a predicate stand before those that do not, halving a window finds the border between
them (`partitionPoint_spec`). On a list in which no entry that is not above a number follows one that is, the search
for the number stops behind the last entry that is not above it (`countUpTo_spec`), and nowhere else (`countUpTo_eq`):
it counts the entries that are not above the number (`countUpTo_eq_countP`), in the whole list or in its first entries
(`countUpTo_take`). No law is asked of the comparison. Numbers that are ordered can be searched for in any ascending
list, and a greater number is found no earlier (`countUpTo_mono`).
-/

namespace VisualEncoding.Order

variable {p : Nat → Bool} {n : Nat}

/-- While a window is halved, its first position is the first of all or satisfies the predicate, and behind it nothing
does. -/
theorem narrow_spec (hp : ∀ i j, i ≤ j → p j = true → p i = true) (n base size : Nat) (hsize : 1 ≤ size)
    (hbase : base = 0 ∨ p base = true) (hbehind : ∀ i, base + size ≤ i → i < n → p i = false) :
    narrow p base size < base + size ∧ (narrow p base size = 0 ∨ p (narrow p base size) = true) ∧
      ∀ i, narrow p base size < i → i < n → p i = false := by
  induction size using Nat.strongRecOn generalizing base with
  | ind size ih =>
    rw [narrow]
    split
    next hone => exact ⟨by omega, hbase, fun i hi hn => hbehind i (by omega) hn⟩
    next hmore =>
      dsimp only
      split
      next hmiddle =>
        obtain ⟨hlt, hfirst, hafter⟩ := ih (size - size / 2) (by omega) (base + size / 2) (by omega) (.inr hmiddle)
          fun i hi hn => hbehind i (by omega) hn
        exact ⟨by omega, hfirst, hafter⟩
      next hmiddle =>
        -- from the middle on nothing satisfies the predicate
        have hnot : ∀ i, base + size / 2 ≤ i → p i = false :=
          fun i hi => Bool.eq_false_iff.mpr fun htrue => hmiddle (hp _ _ hi htrue)
        obtain ⟨hlt, hfirst, hafter⟩ := ih (size - size / 2) (by omega) base (by omega) hbase
          fun i hi _ => hnot i (by omega)
        exact ⟨by omega, hfirst, hafter⟩

/-- The search finds the border between the positions that satisfy a predicate and those that do not. -/
theorem partitionPoint_spec (hp : ∀ i j, i ≤ j → p j = true → p i = true) (n : Nat) :
    partitionPoint p n ≤ n ∧ (∀ i, i < partitionPoint p n → p i = true) ∧
      ∀ i, partitionPoint p n ≤ i → i < n → p i = false := by
  unfold partitionPoint
  split
  next hzero => exact ⟨Nat.zero_le n, fun i hi => absurd hi (Nat.not_lt_zero i), fun i _ hi => by omega⟩
  next hsome =>
    obtain ⟨hlt, hfirst, hafter⟩ := narrow_spec hp n 0 n (by omega) (.inl rfl) fun i hi hn => by omega
    dsimp only
    split
    next hlast =>
      refine ⟨by omega, fun i hi => hp i _ (by omega) hlast, fun i hi hn => hafter i (by omega) hn⟩
    next hlast =>
      have hzero : narrow p 0 n = 0 := hfirst.resolve_right hlast
      rw [hzero] at hlast hafter ⊢
      refine ⟨Nat.zero_le n, fun i hi => absurd hi (Nat.not_lt_zero i), fun i _ hn => ?_⟩
      rcases Nat.eq_zero_or_pos i with rfl | hpos
      · exact Bool.eq_false_iff.mpr hlast
      · exact hafter i hpos hn

variable {α : Type} [LE α] [DecidableLE α]

/-- The search in a list stops behind the entries that are not above the number. -/
theorem countUpTo_spec {entries : List α} {x : α} (h : entries.Pairwise fun a b => b ≤ x → a ≤ x) :
    countUpTo entries x ≤ entries.length ∧ (∀ i a, i < countUpTo entries x → entries[i]? = some a → a ≤ x) ∧
      ∀ i a, countUpTo entries x ≤ i → entries[i]? = some a → ¬ a ≤ x := by
  have hp : ∀ i j : Nat, i ≤ j → (entries[j]?.any fun v => decide (v ≤ x)) = true →
      (entries[i]?.any fun v => decide (v ≤ x)) = true := by
    intro i j hij hj
    rcases Nat.eq_or_lt_of_le hij with rfl | hlt
    · exact hj
    · cases hb : entries[j]? with
      | none =>
        rw [hb] at hj
        nomatch hj
      | some b =>
        rw [hb] at hj
        obtain ⟨hlength, rfl⟩ := List.getElem?_eq_some_iff.mp hb
        rw [List.getElem?_eq_getElem (show i < entries.length by omega)]
        exact decide_eq_true (List.pairwise_iff_getElem.mp h i j (by omega) hlength hlt (of_decide_eq_true hj))
  have hcount : countUpTo entries x =
      partitionPoint (fun i => entries[i]?.any fun v => decide (v ≤ x)) entries.length := by
    unfold countUpTo
    simp
  obtain ⟨hle, hbefore, hafter⟩ := partitionPoint_spec hp entries.length
  rw [hcount]
  refine ⟨hle, fun i a hi ha => ?_, fun i a hi ha hax => ?_⟩
  · have htrue := hbefore i hi
    rw [ha] at htrue
    exact of_decide_eq_true htrue
  · have hfalse := hafter i hi (List.getElem?_eq_some_iff.mp ha).1
    rw [ha] at hfalse
    exact of_decide_eq_false hfalse hax

/-- The search stops behind a position if and only if the entry there is not above the number. -/
theorem lt_countUpTo_iff {entries : List α} {x : α} (h : entries.Pairwise fun a b => b ≤ x → a ≤ x) {i : Nat} :
    i < countUpTo entries x ↔ ∃ a, entries[i]? = some a ∧ a ≤ x := by
  obtain ⟨hle, hbefore, hafter⟩ := countUpTo_spec h
  constructor
  · intro hi
    have hentry := List.getElem?_eq_getElem (Nat.lt_of_lt_of_le hi hle)
    exact ⟨_, hentry, hbefore i _ hi hentry⟩
  · rintro ⟨a, ha, hax⟩
    exact Nat.lt_of_not_le fun hi => hafter i a hi ha hax

/-- Where the entries that are not above the number end, there the search stops. -/
theorem countUpTo_eq {entries : List α} {x : α} {n : Nat} (hn : n ≤ entries.length)
    (h : ∀ i a, entries[i]? = some a → (a ≤ x ↔ i < n)) : countUpTo entries x = n := by
  have hsearch : entries.Pairwise fun a b => b ≤ x → a ≤ x := by
    refine List.pairwise_iff_getElem.mpr fun i j hi hj hij hb => ?_
    have hj' := (h j _ (List.getElem?_eq_getElem hj)).mp hb
    exact (h i _ (List.getElem?_eq_getElem hi)).mpr (Nat.lt_trans hij hj')
  obtain ⟨hle, hbefore, hafter⟩ := countUpTo_spec hsearch
  rcases Nat.lt_trichotomy (countUpTo entries x) n with hlt | heq | hgt
  · have hentry := List.getElem?_eq_getElem (Nat.lt_of_lt_of_le hlt hn)
    exact absurd ((h _ _ hentry).mpr hlt) (hafter _ _ (Nat.le_refl _) hentry)
  · exact heq
  · have hentry := List.getElem?_eq_getElem (Nat.lt_of_lt_of_le hgt hle)
    exact absurd ((h _ _ hentry).mp (hbefore _ _ hgt hentry)) (Nat.lt_irrefl n)

/-- Where no entry that is not above the number follows one that is, an entry is not above it if and only if fewer
entries stand before it than are not above the number. -/
theorem le_iff_lt_countP {entries : List α} {x a : α} (h : entries.Pairwise fun a b => b ≤ x → a ≤ x) {i : Nat}
    (ha : entries[i]? = some a) : a ≤ x ↔ i < entries.countP fun b => decide (b ≤ x) := by
  induction entries generalizing i with
  | nil => nomatch ha
  | cons first rest ih =>
    obtain ⟨hfirst, hrest⟩ := List.pairwise_cons.mp h
    by_cases hle : first ≤ x
    · rw [List.countP_cons_of_pos (p := fun b => decide (b ≤ x)) (decide_eq_true hle)]
      cases i with
      | zero =>
        cases ha
        exact iff_of_true hle (Nat.succ_pos _)
      | succ i => exact (ih hrest ha).trans Nat.succ_lt_succ_iff.symm
    · -- none of the entries is below the number
      have hnone : ∀ b ∈ first :: rest, ¬ b ≤ x :=
        List.forall_mem_cons.mpr ⟨hle, fun b hb hbx => hle (hfirst b hb hbx)⟩
      have hzero : (first :: rest).countP (fun b => decide (b ≤ x)) = 0 :=
        List.countP_eq_zero.mpr fun b hb htrue => hnone b hb (of_decide_eq_true htrue)
      rw [hzero]
      exact iff_of_false (hnone a (List.mem_of_getElem? ha)) (Nat.not_lt_zero i)

/-- The search counts the entries that are not above the number. -/
theorem countUpTo_eq_countP {entries : List α} {x : α} (h : entries.Pairwise fun a b => b ≤ x → a ≤ x) :
    countUpTo entries x = entries.countP fun a => decide (a ≤ x) :=
  countUpTo_eq List.countP_le_length fun _ _ ha => le_iff_lt_countP h ha

/-- The search in the first entries stops where the search in all of them does, or behind the first entries. -/
theorem countUpTo_take {entries : List α} {x : α} (h : entries.Pairwise fun a b => b ≤ x → a ≤ x) (n : Nat) :
    countUpTo (entries.take n) x = min (countUpTo entries x) n := by
  obtain ⟨hle, hbefore, hafter⟩ := countUpTo_spec h
  refine countUpTo_eq ?_ fun i a ha => ?_
  · rw [List.length_take]
    omega
  · rw [List.getElem?_take] at ha
    split at ha
    next hi =>
      constructor
      · intro hax
        have hlt : i < countUpTo entries x := Nat.lt_of_not_le fun hge => hafter i a hge ha hax
        omega
      · intro hlt
        exact hbefore i a (by omega) ha
    next => nomatch ha

/-- The search for a number that is above the same entries, or more, stops no earlier. -/
theorem countUpTo_le_countUpTo {entries : List α} {x y : α} (hx : entries.Pairwise fun a b => b ≤ x → a ≤ x)
    (hy : entries.Pairwise fun a b => b ≤ y → a ≤ y) (h : ∀ a ∈ entries, a ≤ x → a ≤ y) :
    countUpTo entries x ≤ countUpTo entries y := by
  obtain ⟨hle, hbefore, -⟩ := countUpTo_spec hx
  obtain ⟨-, -, hafter⟩ := countUpTo_spec hy
  refine Nat.le_of_not_lt fun hlt => ?_
  have hentry := List.getElem?_eq_getElem (Nat.lt_of_lt_of_le hlt hle)
  exact hafter _ _ (Nat.le_refl _) hentry (h _ (List.mem_of_getElem? hentry) (hbefore _ _ hlt hentry))

/-! ## Ascending lists of ordered numbers -/

open Scalar (IsOrdered)

section Ordered

variable {α : Type} [Scalar α] [IsOrdered α] {entries : List α} {x y : α}

theorem ascending_of_strict (h : entries.Pairwise (· < ·)) : entries.Pairwise (· ≤ ·) := h.imp IsOrdered.le_of_lt

/-- In an ascending list no entry that is not above a number follows one that is. -/
theorem searchable (h : entries.Pairwise (· ≤ ·)) (x : α) : entries.Pairwise fun a b => b ≤ x → a ≤ x :=
  h.imp fun hab hbx => IsOrdered.le_trans hab hbx

theorem countUpTo_mono (h : entries.Pairwise (· ≤ ·)) (hxy : x ≤ y) : countUpTo entries x ≤ countUpTo entries y :=
  countUpTo_le_countUpTo (searchable h x) (searchable h y) fun _ _ hax => IsOrdered.le_trans hax hxy

end Ordered

end VisualEncoding.Order
