import Mathlib.Algebra.Order.Archimedean.Real.Basic
import Mathlib.Algebra.Order.Floor.Div
import Mathlib.Algebra.Order.Floor.Semiring
import Mathlib.Data.Nat.Count
import Mathlib.Tactic.Linarith

/-!
# Ranks

Between the whole ranks of ascending numbers lie the numbers on the line from one to the next (`between`). They ascend
with their ranks (`between_mono`) and are compared with the numbers themselves by their ranks (`between_le_iff`).

Ranks that divide the way from the first of `n` numbers to the last one into `k` equal parts therefore divide the
numbers into `k` groups. Each starts at the rank `firstRank`, and their sizes differ by one at most
(`count_group`).
-/

namespace VisualEncoding.Order

/-! ## Between whole ranks -/

/-- The number at a rank, on the line between the numbers at the two closest whole ranks. -/
noncomputable def between (a : ℕ → ℝ) (r : ℝ) : ℝ := a ⌊r⌋₊ + (a (⌊r⌋₊ + 1) - a ⌊r⌋₊) * (r - ⌊r⌋₊)

variable {a : ℕ → ℝ} {r r' : ℝ} {m n : ℕ}

theorem between_natCast (a : ℕ → ℝ) (m : ℕ) : between a m = a m := by
  unfold between
  rw [Nat.floor_natCast, sub_self, mul_zero, add_zero]

theorem le_between (ha : Monotone a) (hr : 0 ≤ r) (h : m ≤ r) : a m ≤ between a r := by
  have hfloor : m ≤ ⌊r⌋₊ := Nat.le_floor h
  have hstep : 0 ≤ a (⌊r⌋₊ + 1) - a ⌊r⌋₊ := sub_nonneg.mpr (ha (Nat.le_succ _))
  have hpart : 0 ≤ r - ⌊r⌋₊ := sub_nonneg.mpr (Nat.floor_le hr)
  exact (ha hfloor).trans (le_add_of_nonneg_right (mul_nonneg hstep hpart))

theorem between_le (ha : Monotone a) (hr : 0 ≤ r) (h : r ≤ m) : between a r ≤ a m := by
  rcases Nat.lt_or_ge ⌊r⌋₊ m with hlt | hge
  · have hstep : 0 ≤ a (⌊r⌋₊ + 1) - a ⌊r⌋₊ := sub_nonneg.mpr (ha (Nat.le_succ _))
    have hpart : r - ⌊r⌋₊ ≤ 1 := by linarith [Nat.lt_floor_add_one r]
    calc between a r ≤ a ⌊r⌋₊ + (a (⌊r⌋₊ + 1) - a ⌊r⌋₊) * 1 := by
          unfold between
          gcongr
      _ = a (⌊r⌋₊ + 1) := by ring
      _ ≤ a m := ha hlt
  · -- the rank is whole
    have hwhole : r = m := le_antisymm h ((Nat.cast_le.mpr hge).trans (Nat.floor_le hr))
    rw [hwhole, between_natCast]

/-- What lies between ascending numbers ascends with its rank. -/
theorem between_mono (ha : Monotone a) (hr : 0 ≤ r) (h : r ≤ r') : between a r ≤ between a r' := by
  rcases (Nat.floor_mono h).lt_or_eq with hlt | heq
  · -- a whole rank lies between the two
    have hwhole : r ≤ (⌊r'⌋₊ : ℕ) := ((Nat.floor_lt hr).mp hlt).le
    exact (between_le ha hr hwhole).trans (le_between ha (hr.trans h) (Nat.floor_le (hr.trans h)))
  · have hstep : 0 ≤ a (⌊r⌋₊ + 1) - a ⌊r⌋₊ := sub_nonneg.mpr (ha (Nat.le_succ _))
    unfold between
    rw [← heq]
    gcongr

/-- Of numbers without repetition one is below what lies at a greater rank, as long as the rank is not behind the
last. -/
theorem lt_between (ha : Monotone a) (hstrict : ∀ i j, i < j → j ≤ n → a i < a j) (hr : 0 ≤ r) (hn : r ≤ n)
    (h : m < r) : a m < between a r := by
  have hfloor : m ≤ ⌊r⌋₊ := Nat.le_floor h.le
  rcases hfloor.lt_or_eq with hlt | heq
  · have hlast : ⌊r⌋₊ ≤ n := Nat.floor_le_of_le hn
    exact (hstrict m ⌊r⌋₊ hlt hlast).trans_le (le_between ha hr (Nat.floor_le hr))
  · rw [heq] at h ⊢
    have hlast : ⌊r⌋₊ + 1 ≤ n := Nat.cast_lt.mp (h.trans_le hn)
    have hstep : 0 < a (⌊r⌋₊ + 1) - a ⌊r⌋₊ := sub_pos.mpr (hstrict _ _ (Nat.lt_succ_self _) hlast)
    exact lt_add_of_pos_right _ (mul_pos hstep (sub_pos.mpr h))

/-- Numbers without repetition are compared with what lies between them by rank. -/
theorem between_le_iff (ha : Monotone a) (hstrict : ∀ i j, i < j → j ≤ n → a i < a j) (hr : 0 ≤ r) (hn : r ≤ n) :
    between a r ≤ a m ↔ r ≤ m := by
  refine ⟨fun h => ?_, between_le ha hr⟩
  exact not_lt.mp fun hlt => h.not_gt (lt_between ha hstrict hr hn hlt)

/-! ## Groups of ranks -/

variable {k c i : ℕ}

/-- The first whole rank in a group, of `k` groups of the ranks up to `n`. -/
def firstRank (n k c : ℕ) : ℕ := (n * c) ⌈/⌉ k

theorem firstRank_le_iff (hk : 0 < k) : firstRank n k c ≤ m ↔ n * c ≤ k * m := ceilDiv_le_iff_le_mul hk

/-- Two neighbouring groups start about `n / k` ranks apart. -/
theorem firstRank_succ (hk : 0 < k) :
    firstRank n k c + n / k ≤ firstRank n k (c + 1) ∧ firstRank n k (c + 1) ≤ firstRank n k c + n / k + 1 := by
  have hquotient : k * (n / k) ≤ n := Nat.mul_div_le n k
  have hrest : n < k * (n / k + 1) := Nat.lt_mul_div_succ n hk
  have hthis : n * c ≤ k * firstRank n k c := (firstRank_le_iff hk).mp (le_refl _)
  have hnext : n * (c + 1) ≤ k * firstRank n k (c + 1) := (firstRank_le_iff hk).mp (le_refl _)
  have hexpand : n * (c + 1) = n * c + n := Nat.mul_succ n c
  constructor
  · have hfar : n / k ≤ firstRank n k (c + 1) := by
      refine Nat.le_of_mul_le_mul_left ?_ hk
      omega
    have hle : firstRank n k c ≤ firstRank n k (c + 1) - n / k := by
      rw [firstRank_le_iff hk, Nat.mul_sub]
      omega
    omega
  · rw [firstRank_le_iff hk, hexpand, Nat.add_assoc, Nat.mul_add]
    omega

/-- The last group starts `n / k` ranks ahead of the last rank. -/
theorem firstRank_last (hk : 0 < k) : firstRank n k (k - 1) = n - n / k := by
  refine eq_of_forall_ge_iff fun m => ?_
  have hquotient : n - m ≤ n / k ↔ k * (n - m) ≤ n := by rw [Nat.le_div_iff_mul_le hk, Nat.mul_comm]
  have hfull : n * (k - 1) + n = k * n := by
    rw [← Nat.mul_succ, Nat.succ_eq_add_one, Nat.sub_add_cancel hk, Nat.mul_comm]
  rw [Nat.mul_sub] at hquotient
  rw [firstRank_le_iff hk]
  generalize n / k = quotient at *
  omega

/-- The first whole rank behind a group; the last of the groups takes in the last rank. -/
def endRank (n k c : ℕ) : ℕ := if c + 1 < k then firstRank n k (c + 1) else n + 1

/-- A group has `n / k` ranks or one more. -/
theorem endRank_sub_firstRank (hk : 0 < k) (hc : c < k) :
    endRank n k c ≤ n + 1 ∧
      (endRank n k c - firstRank n k c = n / k ∨ endRank n k c - firstRank n k c = n / k + 1) := by
  unfold endRank
  split
  next hmore =>
    have hwithin : firstRank n k (c + 1) ≤ n := by
      rw [firstRank_le_iff hk, Nat.mul_comm]
      exact Nat.mul_le_mul_right n hmore.le
    obtain ⟨hlow, hhigh⟩ := firstRank_succ (n := n) (c := c) hk
    generalize n / k = quotient at *
    omega
  next hlast =>
    have hthis : c = k - 1 := by omega
    have hquotient := Nat.div_le_self n k
    rw [hthis, firstRank_last hk]
    generalize n / k = quotient at *
    omega

/-- The ranks from one on and before another are as many as lie between the two. -/
theorem count_range (lo hi n : ℕ) : Nat.count (fun m => lo ≤ m ∧ m < hi) n = min hi n - lo := by
  induction n with
  | zero => simp
  | succ n ih =>
    rw [Nat.count_succ, ih]
    split <;> omega

/-- The sizes of the groups of the ranks up to `n` differ by one at most. -/
theorem count_group (hk : 0 < k) (hc : c < k) :
    Nat.count (fun m => firstRank n k c ≤ m ∧ m < endRank n k c) (n + 1) = n / k ∨
      Nat.count (fun m => firstRank n k c ≤ m ∧ m < endRank n k c) (n + 1) = n / k + 1 := by
  obtain ⟨hwithin, hsize⟩ := endRank_sub_firstRank (n := n) hk hc
  rw [count_range, Nat.min_eq_left hwithin]
  exact hsize

end VisualEncoding.Order
