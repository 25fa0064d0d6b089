import Mathlib.Order.Lattice
import VisualEncoding.Order.Extent

/-!
# What an extent spans

The ends of an extent are items of the list, and if the order of the items is that of their keys, the keys of
all items lie between those of the ends.
-/

namespace VisualEncoding.Order

variable {β γ : Type} {before : β → β → Bool} {items : List β} {ends : β × β} {lo hi : β}

/-- One more item replaces an end or none. -/
theorem mem_widen {x : β} (h : ends.1 ∈ items ∧ ends.2 ∈ items) (hx : x ∈ items) :
    (widen before ends x).1 ∈ items ∧ (widen before ends x).2 ∈ items := by
  unfold widen
  constructor
  · dsimp only
    split
    · exact hx
    · exact h.1
  · dsimp only
    split
    · exact hx
    · exact h.2

theorem mem_foldl_widen {rest : List β} (hrest : ∀ x ∈ rest, x ∈ items)
    (h : ends.1 ∈ items ∧ ends.2 ∈ items) :
    (rest.foldl (widen before) ends).1 ∈ items ∧ (rest.foldl (widen before) ends).2 ∈ items := by
  induction rest generalizing ends with
  | nil => exact h
  | cons x rest ih =>
    rw [List.forall_mem_cons] at hrest
    exact ih hrest.2 (mem_widen h hrest.1)

/-- The ends of an extent are items. -/
theorem mem_of_extent? (h : extent? before items = some (lo, hi)) : lo ∈ items ∧ hi ∈ items := by
  cases items with
  | nil => nomatch h
  | cons x rest =>
    have hends : rest.foldl (widen before) (x, x) = (lo, hi) := Option.some.inj h
    have hmem : (rest.foldl (widen before) (x, x)).1 ∈ x :: rest ∧
        (rest.foldl (widen before) (x, x)).2 ∈ x :: rest :=
      mem_foldl_widen (fun y hy => List.mem_cons_of_mem x hy) ⟨List.mem_cons_self, List.mem_cons_self⟩
    rwa [hends] at hmem

theorem extent?_eq_none_iff : extent? before items = none ↔ items = [] := by
  cases items with
  | nil => exact ⟨fun _ => rfl, fun _ => rfl⟩
  | cons x rest => exact ⟨fun h => (nomatch h), fun h => (nomatch h)⟩

/-! ## Items in order -/

variable [LinearOrder γ] {key : β → γ}

/-- One more item moves the ends apart, if it moves them, until they hold it. -/
theorem widen_spec {x : β} (hlo : before x ends.1 = decide (key x < key ends.1))
    (hhi : before ends.2 x = decide (key ends.2 < key x)) :
    key (widen before ends x).1 = min (key ends.1) (key x) ∧
      key (widen before ends x).2 = max (key ends.2) (key x) := by
  unfold widen
  rw [hlo, hhi]
  dsimp only
  constructor
  · by_cases h : key x < key ends.1
    · rw [if_pos (decide_eq_true h), min_eq_right h.le]
    · rw [if_neg (by simpa using h), min_eq_left (not_lt.mp h)]
  · by_cases h : key ends.2 < key x
    · rw [if_pos (decide_eq_true h), max_eq_right h.le]
    · rw [if_neg (by simpa using h), max_eq_left (not_lt.mp h)]

theorem foldl_widen_spec {rest : List β}
    (hkey : ∀ x ∈ items, ∀ y ∈ items, before x y = decide (key x < key y))
    (hrest : ∀ x ∈ rest, x ∈ items) (h : ends.1 ∈ items ∧ ends.2 ∈ items) :
    (key (rest.foldl (widen before) ends).1 ≤ key ends.1 ∧
      key ends.2 ≤ key (rest.foldl (widen before) ends).2) ∧
    ∀ x ∈ rest, key (rest.foldl (widen before) ends).1 ≤ key x ∧
      key x ≤ key (rest.foldl (widen before) ends).2 := by
  induction rest generalizing ends with
  | nil => exact ⟨⟨le_rfl, le_rfl⟩, nofun⟩
  | cons x rest ih =>
    rw [List.forall_mem_cons] at hrest
    obtain ⟨hends, hall⟩ := ih hrest.2 (mem_widen h hrest.1)
    obtain ⟨hlo, hhi⟩ := widen_spec (hkey x hrest.1 _ h.1) (hkey _ h.2 x hrest.1)
    rw [hlo, hhi] at hends
    refine ⟨⟨hends.1.trans (min_le_left _ _), (le_max_left _ _).trans hends.2⟩, ?_⟩
    rw [List.forall_mem_cons]
    exact ⟨⟨hends.1.trans (min_le_right _ _), (le_max_right _ _).trans hends.2⟩, hall⟩

/-- An extent spans the items of its list. -/
theorem extent?_spans (hkey : ∀ x ∈ items, ∀ y ∈ items, before x y = decide (key x < key y))
    (h : extent? before items = some (lo, hi)) :
    ∀ x ∈ items, key lo ≤ key x ∧ key x ≤ key hi := by
  cases items with
  | nil => nofun
  | cons x rest =>
    have hends : rest.foldl (widen before) (x, x) = (lo, hi) := Option.some.inj h
    have hmem : (x, x).1 ∈ x :: rest ∧ (x, x).2 ∈ x :: rest := ⟨List.mem_cons_self, List.mem_cons_self⟩
    obtain ⟨hfirst, hall⟩ := foldl_widen_spec hkey (fun y hy => List.mem_cons_of_mem x hy) hmem
    rw [hends] at hfirst hall
    rw [List.forall_mem_cons]
    exact ⟨hfirst, hall⟩

end VisualEncoding.Order
