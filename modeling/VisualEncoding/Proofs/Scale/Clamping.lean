import VisualEncoding.Proofs.Scale.Polyline

/-!
# Clamping

A scale that clamps moves a number to the nearest one between the ends of its stops (`Confined`), an infinite number
to one of the ends. Whether a scale clamps or not, numbers stay in order (`CountsAs.le_of_le`), and those between the
ends stay where they are (`CountsAs.eq_of_encloses`). Only the set of the stops matters, not their order.
-/

namespace VisualEncoding

open Extended (finite infinite)

/-- A number is moved into an interval, and the closest end is the one that it is moved to. -/
theorem Extended.clamp_cases {lo hi : ℝ} {x : Extended} (hle : lo ≤ hi) (hx : Scalar.isNaN x = false) :
    (x ≤ finite lo ∧ Scalar.clamp (finite lo) (finite hi) x = finite lo) ∨
      (∃ r, x = finite r ∧ lo ≤ r ∧ r ≤ hi ∧ Scalar.clamp (finite lo) (finite hi) x = finite r) ∨
      finite hi ≤ x ∧ Scalar.clamp (finite lo) (finite hi) x = finite hi := by
  unfold Scalar.clamp
  dsimp only
  by_cases hlow : x < finite lo
  · rw [if_pos hlow, if_neg fun hlt => (finite_lt.mp hlt).not_ge hle]
    exact .inl ⟨le_of_lt hlow, rfl⟩
  · rw [if_neg hlow]
    by_cases hhigh : finite hi < x
    · rw [if_pos hhigh]
      exact .inr (.inr ⟨le_of_lt hhigh, rfl⟩)
    · rw [if_neg hhigh]
      refine .inr (.inl ?_)
      cases x with
      | finite r =>
        rw [finite_lt, not_lt] at hlow hhigh
        exact ⟨r, rfl, hlow, hhigh, rfl⟩
      | infinite s =>
        cases s with
        | false => exact absurd ⟨_, rfl, _, rfl, EReal.coe_lt_top hi⟩ hhigh
        | true => exact absurd ⟨_, rfl, _, rfl, EReal.bot_lt_coe lo⟩ hlow
      | undefined => nomatch hx

/-- The number between the least and the greatest of some that is nearest to `t`. -/
structure Confined (ts : List ℝ) (t : Extended) (r : ℝ) : Prop where
  encloses : Encloses ts r
  down : finite r ≤ t ∨ ∀ a ∈ ts, r ≤ a
  up : t ≤ finite r ∨ ∀ a ∈ ts, a ≤ r

/-- `t` lies beyond the end `a` of some numbers, or at it. -/
def IsBeyond (ts : List ℝ) (a : ℝ) (t : Extended) : Prop :=
  (∀ b ∈ ts, a ≤ b) ∧ t ≤ finite a ∨ (∀ b ∈ ts, b ≤ a) ∧ finite a ≤ t

/-- What `t` counts as among stops: itself, unless the scale clamps. -/
def CountsAs (clamp : Bool) (ts : List ℝ) (t : Extended) (r : ℝ) : Prop :=
  if clamp then Confined ts t r else t = finite r

variable {ts us : List ℝ} {w w' : Extended} {t r r' a : ℝ} {clamp : Bool}

theorem Confined.le_of_le (h : Confined ts w r) (h' : Confined ts w' r') (hle : w ≤ w') : r ≤ r' := by
  obtain ⟨⟨⟨a, ha, har⟩, b, hb, hrb⟩, hdown, -⟩ := h
  obtain ⟨⟨⟨a', ha', har'⟩, b', hb', hrb'⟩, -, hup⟩ := h'
  rcases hdown with hdown | hleast
  · rcases hup with hup | hgreatest
    · exact Extended.finite_le.mp (Extended.le_trans (Extended.le_trans hdown hle) hup)
    · exact hrb.trans (hgreatest b hb)
  · exact (hleast a' ha').trans har'

theorem Confined.eq_of_encloses (h : Confined ts (finite t) r) (hspan : Encloses ts t) : r = t := by
  obtain ⟨⟨a, ha, hat⟩, b, hb, htb⟩ := hspan
  refine le_antisymm ?_ ?_
  · exact h.down.elim Extended.finite_le.mp fun hleast => (hleast a ha).trans hat
  · exact h.up.elim Extended.finite_le.mp fun hgreatest => htb.trans (hgreatest b hb)

/-- A number beyond an end is moved to it. -/
theorem Confined.eq_of_beyond (h : Confined ts w r) (ha : a ∈ ts) (hbeyond : IsBeyond ts a w) : r = a := by
  obtain ⟨⟨b, hb, hbr⟩, b', hb', hrb'⟩ := h.encloses
  rcases hbeyond with ⟨hleast, hle⟩ | ⟨hgreatest, hle⟩
  · refine le_antisymm ?_ ((hleast b hb).trans hbr)
    exact h.down.elim (fun hdown => Extended.finite_le.mp (Extended.le_trans hdown hle)) fun hbelow => hbelow a ha
  · refine le_antisymm (hrb'.trans (hgreatest b' hb')) ?_
    exact h.up.elim (fun hup => Extended.finite_le.mp (Extended.le_trans hle hup)) fun habove => habove a ha

theorem CountsAs.confined (h : CountsAs clamp ts w r) (hclamp : clamp = true) : Confined ts w r := by
  subst hclamp
  exact h

theorem CountsAs.le_of_le (h : CountsAs clamp ts w r) (h' : CountsAs clamp ts w' r') (hle : w ≤ w') : r ≤ r' := by
  cases clamp with
  | false =>
    obtain rfl : w = finite r := h
    obtain rfl : w' = finite r' := h'
    exact Extended.finite_le.mp hle
  | true => exact Confined.le_of_le h h' hle

/-- Between the ends every number counts as itself. -/
theorem CountsAs.eq_of_encloses (h : CountsAs clamp ts (finite t) r) (hspan : clamp = true → Encloses ts t) :
    r = t := by
  cases clamp with
  | false =>
    have heq : finite t = finite r := h
    exact (Extended.finite.inj heq).symm
  | true => exact Confined.eq_of_encloses h (hspan rfl)

theorem CountsAs.congr (hmem : ∀ a, a ∈ ts ↔ a ∈ us) (h : CountsAs clamp ts w r) : CountsAs clamp us w r := by
  cases clamp with
  | false => exact h
  | true =>
    obtain ⟨⟨⟨a, ha, har⟩, b, hb, hrb⟩, hdown, hup⟩ := h
    refine ⟨⟨⟨a, (hmem a).mp ha, har⟩, b, (hmem b).mp hb, hrb⟩, ?_, ?_⟩
    · exact hdown.imp_right fun hleast a ha => hleast a ((hmem a).mpr ha)
    · exact hup.imp_right fun hgreatest a ha => hgreatest a ((hmem a).mpr ha)

/-- Clamping to the ends of ascending stops. -/
theorem Continuous.clampTo_countsAs {s : Continuous Extended} {knots : List (ℝ × ℝ)}
    (hknots : (knots.map Prod.fst).Pairwise (· < ·)) (hlength : 2 ≤ knots.length) (hw : Scalar.isNaN w = false)
    (hfinite : s.clamp = false → Scalar.isFinite w = true) :
    ∃ r, s.clampTo ((knots.map Prod.fst).map finite) w = finite r ∧ CountsAs s.clamp (knots.map Prod.fst) w r := by
  unfold clampTo CountsAs
  cases hclamp : s.clamp with
  | false => exact Extended.isFinite_iff.mp (hfinite hclamp) |>.imp fun r hr => ⟨hr, hr⟩
  | true =>
    have hfirst : knots[0]? = some knots[0] := List.getElem?_eq_getElem (by omega)
    have hlast : knots[knots.length - 1]? = some knots[knots.length - 1] := List.getElem?_eq_getElem (by omega)
    have hle := fst_le_of_le hknots hfirst hlast (Nat.zero_le _)
    have hhead : ((knots.map Prod.fst).map finite).head? = some (finite knots[0].1) := by
      rw [List.head?_eq_getElem?, List.getElem?_map, List.getElem?_map, hfirst]
      rfl
    have htail : ((knots.map Prod.fst).map finite).getLast? = some (finite knots[knots.length - 1].1) := by
      rw [List.getLast?_eq_getElem?, List.length_map, List.length_map, List.getElem?_map, List.getElem?_map, hlast]
      rfl
    have hmem : ∀ {j : ℕ} {q : ℝ × ℝ}, knots[j]? = some q → q.1 ∈ knots.map Prod.fst :=
      fun hq => List.mem_map_of_mem (List.mem_of_getElem? hq)
    have hleast : ∀ a ∈ knots.map Prod.fst, knots[0].1 ≤ a := by
      intro a ha
      obtain ⟨q, hq, rfl⟩ := List.mem_map.mp ha
      obtain ⟨j, hj⟩ := List.mem_iff_getElem?.mp hq
      exact fst_le_of_le hknots hfirst hj (Nat.zero_le j)
    have hgreatest : ∀ a ∈ knots.map Prod.fst, a ≤ knots[knots.length - 1].1 := by
      intro a ha
      obtain ⟨q, hq, rfl⟩ := List.mem_map.mp ha
      obtain ⟨j, hj⟩ := List.mem_iff_getElem?.mp hq
      have := (List.getElem?_eq_some_iff.mp hj).1
      exact fst_le_of_le hknots hj hlast (by omega)
    rw [hhead, htail]
    rcases Extended.clamp_cases hle hw with ⟨hbelow, heq⟩ | ⟨r, rfl, hlo, hhi, heq⟩ | ⟨habove, heq⟩
    · exact ⟨_, heq, ⟨⟨_, hmem hfirst, le_rfl⟩, _, hmem hlast, hle⟩, .inr hleast, .inl hbelow⟩
    · exact ⟨r, heq, ⟨⟨_, hmem hfirst, hlo⟩, _, hmem hlast, hhi⟩, .inl (Extended.finite_le.mpr le_rfl),
        .inl (Extended.finite_le.mpr le_rfl)⟩
    · exact ⟨_, heq, ⟨⟨_, hmem hfirst, hle⟩, _, hmem hlast, le_rfl⟩, .inl habove, .inr hgreatest⟩

end VisualEncoding
