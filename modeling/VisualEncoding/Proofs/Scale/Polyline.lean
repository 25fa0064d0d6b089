import Mathlib.Data.Set.Basic
import Mathlib.Order.Interval.Set.UnorderedInterval
import VisualEncoding.Proofs.Order.Bisect
import VisualEncoding.Proofs.Scalar.Extended
import VisualEncoding.Scale.Continuous

/-!
# Broken lines

A broken line goes straight from knot to knot; its first and its last piece go on beyond the ends (`OnLine`). A point
of a piece is given by the fraction of the way from one knot to the next. So the same points lie on the line when its
knots are taken in reverse (`OnLine.reverse`), and with both coordinates exchanged on the line through the exchanged
knots (`OnLine.swap`): what is shown of a line that is read from left to right holds of the other directions.

If the first coordinates of the knots ascend, every number has one point (`exists_onLine`, `OnLine.unique`), though
two pieces meet at a knot; and if the second coordinates ascend, too, the line does so (`OnLine.le_of_le`). The piece
that a scale searches for is the one with the point (`pieceOf?_eq`). Taken in reverse, knots that descend ascend, so
the same holds of these (`OnLine.eq`, `OnLine.monotone`, `OnLine.on_part`).
-/

namespace VisualEncoding

open Extended (finite)

/-- A point of the piece from the knot number `i`, `p`, to the next one, `q`, at a fraction of the way. The first piece
starts before its knot, the last one ends behind it. -/
structure OnPiece (knots : List (ℝ × ℝ)) (i : ℕ) (p q : ℝ × ℝ) (u t y : ℝ) : Prop where
  low : knots[i]? = some p
  high : knots[i + 1]? = some q
  nonneg : 0 < i → 0 ≤ u
  le_one : i + 2 < knots.length → u ≤ 1
  first : t = p.1 + (q.1 - p.1) * u
  second : y = p.2 + (q.2 - p.2) * u

/-- A point of the broken line through knots. -/
def OnLine (knots : List (ℝ × ℝ)) (t y : ℝ) : Prop := ∃ i p q u, OnPiece knots i p q u t y

/-- Numbers that ascend, or descend. -/
def IsSteady (ts : List ℝ) : Prop := ts.Pairwise (· < ·) ∨ ts.Pairwise (· > ·)

/-- Numbers that do not descend, or do not ascend. -/
def IsMonotone (ts : List ℝ) : Prop := ts.Pairwise (· ≤ ·) ∨ ts.Pairwise (· ≥ ·)

/-- Some of the numbers are not above `t`, and some are not below. -/
def Encloses (ts : List ℝ) (t : ℝ) : Prop := (∃ a ∈ ts, a ≤ t) ∧ ∃ b ∈ ts, t ≤ b

variable {knots part : List (ℝ × ℝ)} {i j : ℕ} {p q p' q' : ℝ × ℝ} {u u' t t' y y' : ℝ}

/-! ## Directions -/

theorem OnPiece.length (h : OnPiece knots i p q u t y) : i + 1 < knots.length := (List.getElem?_eq_some_iff.mp h.high).1

theorem map_swap_fst (knots : List (ℝ × ℝ)) : (knots.map Prod.swap).map Prod.fst = knots.map Prod.snd := by
  rw [List.map_map]
  rfl

theorem map_swap_snd (knots : List (ℝ × ℝ)) : (knots.map Prod.swap).map Prod.snd = knots.map Prod.fst := by
  rw [List.map_map]
  rfl

/-- The points of a line are those of the line through the exchanged knots. -/
theorem OnLine.swap (h : OnLine knots t y) : OnLine (knots.map Prod.swap) y t := by
  obtain ⟨i, p, q, u, h⟩ := h
  refine ⟨i, p.swap, q.swap, u, ?_, ?_, h.nonneg, ?_, h.second, h.first⟩
  · rw [List.getElem?_map, h.low, Option.map_some]
  · rw [List.getElem?_map, h.high, Option.map_some]
  · rw [List.length_map]
    exact h.le_one

/-- The points of a line are those of the line through the knots in reverse. -/
theorem OnLine.reverse (h : OnLine knots t y) : OnLine knots.reverse t y := by
  obtain ⟨i, p, q, u, h⟩ := h
  have hlength := h.length
  refine ⟨knots.length - 2 - i, q, p, 1 - u, ?_, ?_, ?_, ?_, ?_, ?_⟩
  · rw [List.getElem?_reverse (by omega), show knots.length - 1 - (knots.length - 2 - i) = i + 1 by omega, h.high]
  · rw [List.getElem?_reverse (by omega), show knots.length - 1 - (knots.length - 2 - i + 1) = i by omega, h.low]
  · intro hpos
    have := h.le_one (by omega)
    linarith
  · intro hlast
    rw [List.length_reverse] at hlast
    have := h.nonneg (by omega)
    linarith
  · rw [h.first]
    ring
  · rw [h.second]
    ring

/-- So are those of the line through the knots below and above zero exchanged. -/
theorem OnLine.neg (h : OnLine knots t y) : OnLine (knots.map fun p => (p.1, -p.2)) t (-y) := by
  obtain ⟨i, p, q, u, h⟩ := h
  refine ⟨i, (p.1, -p.2), (q.1, -q.2), u, ?_, ?_, h.nonneg, ?_, h.first, ?_⟩
  · rw [List.getElem?_map, h.low, Option.map_some]
  · rw [List.getElem?_map, h.high, Option.map_some]
  · rw [List.length_map]
    exact h.le_one
  · rw [h.second]
    ring

/-- Every knot is a point of the line. -/
theorem onLine_of_mem (hlength : 2 ≤ knots.length) (hp : p ∈ knots) : OnLine knots p.1 p.2 := by
  obtain ⟨i, hi, rfl⟩ := List.getElem_of_mem hp
  by_cases hlast : i + 1 < knots.length
  · refine ⟨i, knots[i], knots[i + 1], 0, List.getElem?_eq_getElem hi, List.getElem?_eq_getElem hlast,
      fun _ => le_rfl, fun _ => zero_le_one, ?_, ?_⟩
    · ring
    · ring
  · -- the last knot ends the last piece
    obtain ⟨j, rfl⟩ : ∃ j, i = j + 1 := ⟨i - 1, by omega⟩
    refine ⟨j, knots[j], knots[j + 1], 1, List.getElem?_eq_getElem (by omega), List.getElem?_eq_getElem hi,
      fun _ => zero_le_one, fun _ => le_rfl, ?_, ?_⟩
    · ring
    · ring

/-- A piece of a part of the knots is a piece of the line. -/
theorem OnPiece.of_infix (h : OnPiece part i p q u t y) (hpart : part <:+: knots) (hzero : 0 ≤ u) (hone : u ≤ 1) :
    OnLine knots t y := by
  obtain ⟨before, after, rfl⟩ := hpart
  have hlength := h.length
  have hget : ∀ k : ℕ, k < part.length → (before ++ part ++ after)[before.length + k]? = part[k]? := by
    intro k hk
    rw [List.append_assoc, List.getElem?_append_right (Nat.le_add_right _ _), Nat.add_sub_cancel_left,
      List.getElem?_append_left hk]
  refine ⟨before.length + i, p, q, u, ?_, ?_, fun _ => hzero, fun _ => hone, h.first, h.second⟩
  · rw [hget i (by omega), h.low]
  · rw [Nat.add_assoc, hget (i + 1) hlength, h.high]

/-- Knots in reverse go the other way. -/
theorem pairwise_map_reverse {r : ℝ → ℝ → Prop} (coordinate : ℝ × ℝ → ℝ) (h : (knots.map coordinate).Pairwise r) :
    (knots.reverse.map coordinate).Pairwise fun a b => r b a := by
  rw [List.map_reverse]
  exact List.pairwise_reverse.mpr h

/-- On a single piece numbers are in proportion. -/
theorem onLine_pair (hne : p.1 ≠ q.1) (h : OnLine [p, q] t y) :
    y = p.2 + (q.2 - p.2) * ((t - p.1) / (q.1 - p.1)) := by
  obtain ⟨i, p', q', u, h⟩ := h
  have hlength : i + 1 < 2 := h.length
  obtain rfl : i = 0 := by omega
  obtain rfl : p = p' := Option.some.inj h.low
  obtain rfl : q = q' := Option.some.inj h.high
  have hdiff : q.1 - p.1 ≠ 0 := sub_ne_zero.mpr hne.symm
  rw [h.first, h.second, add_sub_cancel_left, mul_div_cancel_left₀ u hdiff]

theorem Encloses.mono {ts us : List ℝ} (h : Encloses ts t) (hsub : ts ⊆ us) : Encloses us t := by
  obtain ⟨⟨a, ha, hat⟩, b, hb, htb⟩ := h
  exact ⟨⟨a, hsub ha, hat⟩, b, hsub hb, htb⟩

theorem encloses_pair {a b : ℝ} (h : t ∈ Set.uIcc a b) : Encloses [a, b] t := by
  rcases Set.mem_uIcc.mp h with ⟨hlo, hhi⟩ | ⟨hlo, hhi⟩
  · exact ⟨⟨a, by simp, hlo⟩, b, by simp, hhi⟩
  · exact ⟨⟨b, by simp, hlo⟩, a, by simp, hhi⟩

theorem encloses_reverse {ts : List ℝ} : Encloses ts.reverse t ↔ Encloses ts t := by
  unfold Encloses
  simp only [List.mem_reverse]

theorem encloses_of_mem {ts : List ℝ} (h : t ∈ ts) : Encloses ts t := ⟨⟨t, h, le_rfl⟩, t, h, le_rfl⟩

/-! ## One point for each number -/

section Ascending

variable (hknots : (knots.map Prod.fst).Pairwise (· < ·))

include hknots

theorem fst_lt_of_lt (hp : knots[i]? = some p) (hq : knots[j]? = some q) (hij : i < j) : p.1 < q.1 := by
  obtain ⟨hi, rfl⟩ := List.getElem?_eq_some_iff.mp hp
  obtain ⟨hj, rfl⟩ := List.getElem?_eq_some_iff.mp hq
  exact List.pairwise_iff_getElem.mp (List.pairwise_map.mp hknots) i j hi hj hij

theorem fst_le_of_le (hp : knots[i]? = some p) (hq : knots[j]? = some q) (hij : i ≤ j) : p.1 ≤ q.1 := by
  rcases Nat.eq_or_lt_of_le hij with rfl | hlt
  · rw [Option.some.inj (hp.symm.trans hq)]
  · exact (fst_lt_of_lt hknots hp hq hlt).le

/-- A later piece has no lower number than an earlier one, unless the two meet at a knot. -/
theorem OnPiece.eq_of_le (h : OnPiece knots i p q u t y) (h' : OnPiece knots j p' q' u' t' y') (hle : t ≤ t')
    (hij : j < i) : t = t' ∧ y = y' := by
  have hpq := fst_lt_of_lt hknots h.low h.high (Nat.lt_succ_self i)
  have hpq' := fst_lt_of_lt hknots h'.low h'.high (Nat.lt_succ_self j)
  have hmeet := fst_le_of_le hknots h'.high h.low hij
  have hlength := h.length
  have hu := h.nonneg (by omega)
  have hu' := h'.le_one (by omega)
  have hlow : p.1 ≤ t := by
    rw [h.first]
    nlinarith
  have hhigh : t' ≤ q'.1 := by
    rw [h'.first]
    nlinarith
  -- the second piece ends where the first one starts
  have hknot : q'.1 = p.1 := by linarith
  have hnext : j + 1 = i := by
    by_contra hne
    exact absurd hknot (fst_lt_of_lt hknots h'.high h.low (by omega)).ne
  subst hnext
  obtain rfl : q' = p := Option.some.inj (h'.high.symm.trans h.low)
  have hzero : u = 0 := by
    have hfirst := h.first
    refine (mul_eq_zero.mp (show (q.1 - q'.1) * u = 0 by linarith)).resolve_left (by linarith)
  have hone : u' = 1 := by
    have hfirst := h'.first
    have hprod : (q'.1 - p'.1) * (u' - 1) = 0 := by linarith
    have := (mul_eq_zero.mp hprod).resolve_left (by linarith)
    linarith
  constructor
  · linarith
  · rw [h.second, h'.second, hzero, hone]
    ring

/-- A number has no more than one point. -/
theorem OnLine.unique (h : OnLine knots t y) (h' : OnLine knots t y') : y = y' := by
  obtain ⟨i, p, q, u, h⟩ := h
  obtain ⟨j, p', q', u', h'⟩ := h'
  rcases lt_trichotomy i j with hlt | rfl | hgt
  · exact (h'.eq_of_le hknots h le_rfl hlt).2.symm
  · obtain rfl : p = p' := Option.some.inj (h.low.symm.trans h'.low)
    obtain rfl : q = q' := Option.some.inj (h.high.symm.trans h'.high)
    have hpq := fst_lt_of_lt hknots h.low h.high (Nat.lt_succ_self i)
    have hsame : (q.1 - p.1) * u = (q.1 - p.1) * u' := by linarith [h.first, h'.first]
    rw [h.second, h'.second, mul_left_cancel₀ (by linarith) hsame]
  · exact (h.eq_of_le hknots h' le_rfl hgt).2

/-- Where the knots do not descend, the line does not. -/
theorem OnLine.le_of_le (hsecond : (knots.map Prod.snd).Pairwise (· ≤ ·)) (h : OnLine knots t y)
    (h' : OnLine knots t' y') (hle : t ≤ t') : y ≤ y' := by
  have hmono : ∀ {i j : ℕ} {p q : ℝ × ℝ}, knots[i]? = some p → knots[j]? = some q → i ≤ j → p.2 ≤ q.2 := by
    intro i j p q hp hq hij
    rcases Nat.eq_or_lt_of_le hij with rfl | hlt
    · rw [Option.some.inj (hp.symm.trans hq)]
    · obtain ⟨hi, rfl⟩ := List.getElem?_eq_some_iff.mp hp
      obtain ⟨hj, rfl⟩ := List.getElem?_eq_some_iff.mp hq
      exact List.pairwise_iff_getElem.mp (List.pairwise_map.mp hsecond) i j hi hj hlt
  obtain ⟨i, p, q, u, h⟩ := h
  obtain ⟨j, p', q', u', h'⟩ := h'
  have hrise := hmono h.low h.high (Nat.le_succ i)
  have hrise' := hmono h'.low h'.high (Nat.le_succ j)
  rcases lt_trichotomy i j with hlt | rfl | hgt
  · have hlength := h'.length
    have hu := h.le_one (by omega)
    have hu' := h'.nonneg (by omega)
    have hbetween := hmono h.high h'.low hlt
    rw [h.second, h'.second]
    nlinarith
  · obtain rfl : p = p' := Option.some.inj (h.low.symm.trans h'.low)
    obtain rfl : q = q' := Option.some.inj (h.high.symm.trans h'.high)
    have hpq := fst_lt_of_lt hknots h.low h.high (Nat.lt_succ_self i)
    rw [h.first, h'.first] at hle
    have hu : u ≤ u' := le_of_mul_le_mul_left (show (q.1 - p.1) * u ≤ (q.1 - p.1) * u' by linarith) (by linarith)
    rw [h.second, h'.second]
    nlinarith
  · exact (h.eq_of_le hknots h' hle hgt).2.le

/-- Where the knots do not ascend, the line does not. -/
theorem OnLine.ge_of_le (hsecond : (knots.map Prod.snd).Pairwise (· ≥ ·)) (h : OnLine knots t y)
    (h' : OnLine knots t' y') (hle : t ≤ t') : y' ≤ y := by
  have hfirst : ((knots.map fun p => (p.1, -p.2)).map Prod.fst).Pairwise (· < ·) := by
    rw [List.map_map]
    exact hknots
  have hneg : ((knots.map fun p => (p.1, -p.2)).map Prod.snd).Pairwise (· ≤ ·) := by
    rw [List.map_map]
    exact List.pairwise_map.mpr ((List.pairwise_map.mp hsecond).imp fun hle => neg_le_neg hle)
  exact neg_le_neg_iff.mp (h.neg.le_of_le hfirst hneg h'.neg hle)

/-- Between the ends of the line a point lies between the knots of its piece. -/
theorem OnPiece.between (h : OnPiece knots i p q u t y) (hspan : Encloses (knots.map Prod.fst) t) :
    0 ≤ u ∧ u ≤ 1 := by
  have hpq := fst_lt_of_lt hknots h.low h.high (Nat.lt_succ_self i)
  have hlength := h.length
  have hfirst := h.first
  obtain ⟨⟨_, hamem, hat⟩, ⟨_, hbmem, htb⟩⟩ := hspan
  obtain ⟨a, haknot, rfl⟩ := List.mem_map.mp hamem
  obtain ⟨b, hbknot, rfl⟩ := List.mem_map.mp hbmem
  obtain ⟨j, ha⟩ := List.mem_iff_getElem?.mp haknot
  obtain ⟨k, hb⟩ := List.mem_iff_getElem?.mp hbknot
  constructor
  · rcases Nat.eq_zero_or_pos i with rfl | hpos
    · have hle := fst_le_of_le hknots h.low ha (Nat.zero_le j)
      have hprod : 0 ≤ (q.1 - p.1) * u := by linarith
      exact nonneg_of_mul_nonneg_right hprod (by linarith)
    · exact h.nonneg hpos
  · by_cases hlast : i + 2 < knots.length
    · exact h.le_one hlast
    · have hk := (List.getElem?_eq_some_iff.mp hb).1
      have hle := fst_le_of_le hknots hb h.high (by omega)
      have hprod : 0 ≤ (q.1 - p.1) * (1 - u) := by linarith
      have := nonneg_of_mul_nonneg_right hprod (by linarith)
      linarith

/-- Between the ends of the line its points lie between knots. -/
theorem OnLine.encloses_of_ascending (hspan : Encloses (knots.map Prod.fst) t) (h : OnLine knots t y) :
    Encloses (knots.map Prod.snd) y := by
  obtain ⟨i, p, q, u, h⟩ := h
  obtain ⟨hzero, hone⟩ := h.between hknots hspan
  have hp : p.2 ∈ knots.map Prod.snd := List.mem_map_of_mem (List.mem_of_getElem? h.low)
  have hq : q.2 ∈ knots.map Prod.snd := List.mem_map_of_mem (List.mem_of_getElem? h.high)
  rw [h.second]
  rcases le_total p.2 q.2 with hle | hle
  · exact ⟨⟨p.2, hp, by nlinarith⟩, q.2, hq, by nlinarith⟩
  · exact ⟨⟨q.2, hq, by nlinarith⟩, p.2, hp, by nlinarith⟩

end Ascending

/-! ## Searching the piece -/

/-- Among ascending stops the search finds the last piece that does not start above a number, or the first one. -/
theorem pieceOf?_search {ts : List ℝ} (hts : ts.Pairwise (· < ·)) (hlength : 2 ≤ ts.length) (w : Extended) :
    ∃ i a b, ts[i]? = some a ∧ ts[i + 1]? = some b ∧ a < b ∧ (0 < i → finite a ≤ w) ∧
      (i + 2 < ts.length → ¬ finite b ≤ w) ∧
      pieceOf? (ts.map finite) w =
        some { index := i, low := finite a, high := finite b, fraction := (w - finite a) / finite (b - a) } := by
  have hsearch : ((ts.map finite).tail.dropLast).Pairwise fun a b => b ≤ w → a ≤ w := by
    refine List.Pairwise.sublist ((List.dropLast_sublist _).trans (List.tail_sublist _)) ?_
    exact List.pairwise_map.mpr (hts.imp fun hlt hle => Extended.le_trans (Extended.finite_le.mpr hlt.le) hle)
  obtain ⟨hcount, hbefore, hafter⟩ := Order.countUpTo_spec hsearch
  generalize hi : Order.countUpTo (ts.map finite).tail.dropLast w = i at hcount hbefore hafter
  simp only [List.length_dropLast, List.length_tail, List.length_map] at hcount
  have hinner : ∀ k : ℕ, k + 2 < ts.length → (ts.map finite).tail.dropLast[k]? = ts[k + 1]?.map finite := by
    intro k hk
    rw [List.getElem?_dropLast, if_pos (by simp; omega), List.getElem?_tail, List.getElem?_map]
  have ha : ts[i]? = some ts[i] := List.getElem?_eq_getElem (by omega)
  have hb : ts[i + 1]? = some ts[i + 1] := List.getElem?_eq_getElem (by omega)
  have hab : ts[i] < ts[i + 1] := List.pairwise_iff_getElem.mp hts i (i + 1) (by omega) (by omega) (Nat.lt_succ_self i)
  refine ⟨i, ts[i], ts[i + 1], ha, hb, hab, fun hpos => ?_, fun hlast => ?_, ?_⟩
  · refine hbefore (i - 1) (finite ts[i]) (by omega) ?_
    rw [hinner (i - 1) (by omega), Nat.sub_add_cancel hpos, ha, Option.map_some]
  · refine hafter i (finite ts[i + 1]) le_rfl ?_
    rw [hinner i hlast, hb, Option.map_some]
  · have hne : ¬ (finite ts[i + 1] == finite ts[i]) = true := by
      rw [Extended.finite_beq]
      exact hab.ne'
    unfold pieceOf?
    simp only [hi, List.getElem?_map, ha, hb, Option.map_some, Option.bind_eq_bind, Option.bind_some,
      Option.pure_def, fractionBetween, if_neg hne, Extended.finite_sub]

/-- The piece of a number among ascending stops is the one with its point on the line. -/
theorem pieceOf?_eq (hknots : (knots.map Prod.fst).Pairwise (· < ·)) (hlength : 2 ≤ knots.length) (t : ℝ) :
    ∃ i p q u, OnPiece knots i p q u t (p.2 + (q.2 - p.2) * u) ∧
      pieceOf? ((knots.map Prod.fst).map finite) (finite t) =
        some { index := i, low := finite p.1, high := finite q.1, fraction := finite u } := by
  obtain ⟨i, _, _, ha, hb, hab, hlow, hhigh, hpiece⟩ :=
    pieceOf?_search hknots (by rwa [List.length_map]) (finite t)
  rw [List.getElem?_map] at ha hb
  obtain ⟨p, hp, rfl⟩ := Option.map_eq_some_iff.mp ha
  obtain ⟨q, hq, rfl⟩ := Option.map_eq_some_iff.mp hb
  simp only [Extended.finite_le, not_le, List.length_map] at hlow hhigh
  refine ⟨i, p, q, (t - p.1) / (q.1 - p.1), ⟨hp, hq, fun hpos => ?_, fun hlast => ?_, ?_, rfl⟩, ?_⟩
  · exact div_nonneg (sub_nonneg.mpr (hlow hpos)) (sub_pos.mpr hab).le
  · rw [div_le_one (sub_pos.mpr hab)]
    linarith [hhigh hlast]
  · field_simp [(sub_pos.mpr hab).ne']
    ring
  · rw [hpiece, Extended.finite_sub, Extended.finite_div (sub_pos.mpr hab).ne']

/-- Every number has a point. -/
theorem exists_onLine (hknots : (knots.map Prod.fst).Pairwise (· < ·)) (hlength : 2 ≤ knots.length) (t : ℝ) :
    ∃ y, OnLine knots t y := by
  obtain ⟨i, p, q, u, h, -⟩ := pieceOf?_eq hknots hlength t
  exact ⟨_, i, p, q, u, h⟩

/-- Between its ends, a part of the knots has the points of the whole line. -/
theorem OnLine.part_of_ascending (hknots : (knots.map Prod.fst).Pairwise (· < ·)) (hpart : part <:+: knots)
    (hlength : 2 ≤ part.length) (hspan : Encloses (part.map Prod.fst) t) (h : OnLine knots t y) : OnLine part t y := by
  have hascending : (part.map Prod.fst).Pairwise (· < ·) := hknots.sublist (hpart.sublist.map Prod.fst)
  -- two pieces meet at a knot, so the piece is searched for once more, among those of the part
  obtain ⟨y', i, p, q, u, h'⟩ := exists_onLine hascending hlength t
  obtain ⟨hzero, hone⟩ := h'.between hascending hspan
  rw [h.unique hknots (h'.of_infix hpart hzero hone)]
  exact ⟨i, p, q, u, h'⟩

/-! ## Steady knots -/

theorem IsSteady.sublist {ts us : List ℝ} (h : IsSteady ts) (hsub : us.Sublist ts) : IsSteady us :=
  h.imp (List.Pairwise.sublist hsub) (List.Pairwise.sublist hsub)

/-- Steady knots ascend from one of their ends. -/
theorem IsSteady.ascending (h : IsSteady (knots.map Prod.fst)) :
    (knots.map Prod.fst).Pairwise (· < ·) ∨ (knots.reverse.map Prod.fst).Pairwise (· < ·) :=
  h.imp_right (pairwise_map_reverse Prod.fst)

section Steady

variable (hsteady : IsSteady (knots.map Prod.fst))

include hsteady

/-- A number has one point only. -/
theorem OnLine.eq (h : OnLine knots t y) (h' : OnLine knots t y') : y = y' := by
  rcases hsteady.ascending with hknots | hknots
  · exact h.unique hknots h'
  · exact h.reverse.unique hknots h'.reverse

/-- Between its ends, a part of the knots has the points of the whole line. -/
theorem OnLine.on_part (hpart : part <:+: knots) (hlength : 2 ≤ part.length) (hspan : Encloses (part.map Prod.fst) t)
    (h : OnLine knots t y) : OnLine part t y := by
  rcases hsteady.ascending with hknots | hknots
  · exact h.part_of_ascending hknots hpart hlength hspan
  · have hreverse : OnLine part.reverse t y := by
      refine h.reverse.part_of_ascending hknots (List.reverse_infix.mpr hpart) ?_ ?_
      · rwa [List.length_reverse]
      · rwa [List.map_reverse, encloses_reverse]
    rw [← List.reverse_reverse part]
    exact hreverse.reverse

/-- Between the ends of the line its points lie between knots. -/
theorem OnLine.encloses (hspan : Encloses (knots.map Prod.fst) t) (h : OnLine knots t y) :
    Encloses (knots.map Prod.snd) y := by
  rcases hsteady.ascending with hknots | hknots
  · exact h.encloses_of_ascending hknots hspan
  · rw [← encloses_reverse, ← List.map_reverse] at hspan ⊢
    exact h.reverse.encloses_of_ascending hknots hspan

/-- Where the knots are monotone, the line is. -/
theorem OnLine.monotone (hmonotone : IsMonotone (knots.map Prod.snd)) :
    (∀ t y t' y', OnLine knots t y → OnLine knots t' y' → t ≤ t' → y ≤ y') ∨
      ∀ t y t' y', OnLine knots t y → OnLine knots t' y' → t ≤ t' → y' ≤ y := by
  rcases hsteady.ascending with hknots | hknots
  · refine hmonotone.imp (fun hsecond t y t' y' h h' hle => ?_) fun hsecond t y t' y' h h' hle => ?_
    · exact h.le_of_le hknots hsecond h' hle
    · exact h.ge_of_le hknots hsecond h' hle
  · -- in reverse the second coordinates go the other way
    refine hmonotone.symm.imp (fun hsecond t y t' y' h h' hle => ?_) fun hsecond t y t' y' h h' hle => ?_
    · exact h.reverse.le_of_le hknots (pairwise_map_reverse Prod.snd hsecond) h'.reverse hle
    · exact h.reverse.ge_of_le hknots (pairwise_map_reverse Prod.snd hsecond) h'.reverse hle

/-- So is what a function makes of numbers that it takes to the line in one direction. -/
theorem monotone_of_onLine (hmonotone : IsMonotone (knots.map Prod.snd)) {F pos : ℝ → ℝ} {S : Set ℝ}
    (hpos : MonotoneOn pos S ∨ AntitoneOn pos S) (hline : ∀ x ∈ S, OnLine knots (pos x) (F x)) :
    MonotoneOn F S ∨ AntitoneOn F S := by
  rcases OnLine.monotone hsteady hmonotone with hrise | hfall
  · refine hpos.imp (fun hpos x hx x' hx' hle => ?_) fun hpos x hx x' hx' hle => ?_
    · exact hrise _ _ _ _ (hline x hx) (hline x' hx') (hpos hx hx' hle)
    · exact hrise _ _ _ _ (hline x' hx') (hline x hx) (hpos hx hx' hle)
  · refine hpos.symm.imp (fun hpos x hx x' hx' hle => ?_) fun hpos x hx x' hx' hle => ?_
    · exact hfall _ _ _ _ (hline x' hx') (hline x hx) (hpos hx hx' hle)
    · exact hfall _ _ _ _ (hline x hx) (hline x' hx') (hpos hx hx' hle)

end Steady

section SteadySlots

variable (hsteady : IsSteady (knots.map Prod.snd))

include hsteady

/-- If the second coordinates go in one direction, points that share the second one share the first one, -/
theorem OnLine.fst_eq (h : OnLine knots t y) (h' : OnLine knots t' y) : t = t' :=
  h.swap.eq (by rwa [map_swap_fst]) h'.swap

/-- and points between the ends of the second ones lie between the ends of the first ones. -/
theorem OnLine.encloses_fst (hspan : Encloses (knots.map Prod.snd) y) (h : OnLine knots t y) :
    Encloses (knots.map Prod.fst) t := by
  rw [← map_swap_fst] at hsteady hspan
  rw [← map_swap_snd]
  exact h.swap.encloses hsteady hspan

end SteadySlots

end VisualEncoding
