import VisualEncoding.Proofs.Scale.Knots

/-!
# Spreading a domain over a ramp

A domain of two stops spreads over all the colors of a ramp: the position along the ramp tells the segment, by its whole
part. A domain with a stop for each color searches the segment among its stops. If the stops are evenly spaced, both
ways arrive at the same two colors and the same fraction of the way between them (`segmentAt_search`), between, at and
beyond the ends, and so at the same color:

> `map_spread`: in exact arithmetic the scale over two stops and the one over as many evenly spaced stops as the ramp
> has colors map everything to the same, however two colors are blended.
-/

namespace VisualEncoding

open Extended (finite infinite)

/-! ## Any way of blending -/

section Blending

variable {α : Type} [Scalar α]

/-- The segment of a ramp of `count` colors that a position from 0 to 1 belongs to, and how far along it lies. -/
def segmentAt (count : Nat) (t : α) : Nat × α :=
  let scaled := Scalar.clamp 0 1 t * Scalar.ofInt (count - 1 : Nat)
  let segment := (Scalar.truncateWithin 0 (count - 1 - 1 : Nat) (Scalar.floor scaled)).toNat
  (segment, scaled - Scalar.ofInt segment)

theorem ColorRamp.colorAt_eq {r : ColorRamp} (h : 2 ≤ r.length) (t : α) :
    r.colorAt t = r.mix (segmentAt r.length t).1 ((segmentAt r.length t).1 + 1) (segmentAt r.length t).2 := by
  unfold ColorRamp.colorAt
  rw [if_neg (by omega)]
  rfl

namespace Continuous

/-- The slots that a transformed number lies between, and the fraction of the way from the one to the other. -/
def slots? (s : Continuous α) (t : α) : Option (Nat × Nat × α) :=
  let stops := s.domainStops
  if stops.any (fun d => !Scalar.isFinite d) || Scalar.isNaN t then none
  else
    let flipped := descends stops
    let stops := if flipped then stops.reverse else stops
    let last := s.stopCount - 1
    (pieceOf? stops (s.clampTo stops t)).map fun p =>
      if flipped then (last - p.index, last - (p.index + 1), p.fraction) else (p.index, p.index + 1, p.fraction)

theorem mapTransformed_eq (s : Continuous α) (t : α) :
    s.mapTransformed t = ((s.slots? t).map fun p => s.valueBetween p.1 p.2.1 p.2.2).getD .null := by
  unfold mapTransformed slots?
  dsimp only
  split
  · rfl
  · split
    next p hpiece =>
      rw [hpiece]
      simp only [Option.map_some, Option.getD_some]
      split <;> rfl
    next hpiece =>
      rw [hpiece]
      rfl

/-- The color at a fraction of the way between two slots, where `blend i j u` is the one between the colors `i` and
`j` of a ramp. -/
def blendBetween (s : Continuous α) (blend : Nat → Nat → α → String) (i j : Nat) (u : α) : Value α :=
  if !Scalar.isFinite u then .null
  else
    let u := Scalar.clamp 0 1 u
    if s.domain.length = 2 ∧ 2 < s.range.length then
      let p := segmentAt s.range.length (if j < i then 1 - u else u)
      .string (blend p.1 (p.1 + 1) p.2)
    else .string (blend i j u)

/-- The color for a number, where `blend i j u` is the color at a fraction of the way between the colors `i` and `j`
of a ramp. -/
def mapBlending (s : Continuous α) (blend : Nat → Nat → α → String) (x : α) : Value α :=
  match s.stopCount with
  | 0 => .null
  | 1 => .string (blend 0 0 0)
  | _ => ((s.slots? (s.forward x)).map fun p => s.blendBetween blend p.1 p.2.1 p.2.2).getD .null

variable {s : Continuous α} {ramp : ColorRamp}

/-- A scale over a ramp blends the colors of the ramp. -/
theorem map_eq_mapBlending (hrange : s.range = .colors ramp) (x : α) : s.map x = s.mapBlending ramp.mix x := by
  have hbetween : ∀ i j u, s.valueBetween i j u = s.blendBetween ramp.mix i j u := by
    intro i j u
    have hlength : (OutputRange.colors ramp : OutputRange α).length = ramp.length := rfl
    unfold valueBetween blendBetween
    simp only [hrange, hlength]
    split
    · rfl
    · split
      next hspread => rw [ColorRamp.colorAt_eq hspread.2.le]
      next => rfl
  have hfirst : s.range.first = .string (ramp.mix 0 0 (0 : α)) := by
    rw [hrange]
    rfl
  have htransformed : s.mapTransformed (s.forward x) =
      ((s.slots? (s.forward x)).map fun p => s.blendBetween ramp.mix p.1 p.2.1 p.2.2).getD .null := by
    rw [mapTransformed_eq]
    simp only [hbetween]
  unfold map mapBlending
  generalize s.stopCount = count
  match count with
  | 0 => rfl
  | 1 => exact hfirst
  | _ + 2 => exact htransformed

end Continuous

end Blending

/-! ## Evenly spaced stops -/

/-- `count` numbers from `d` to `e` at equal distances. -/
noncomputable def evenStops (d e : ℝ) (count : ℕ) : List ℝ :=
  (List.range count).map fun i : ℕ => d + (e - d) * (i / (count - 1 : ℕ))

variable {d e : ℝ} {count i : ℕ}

theorem length_evenStops (d e : ℝ) (count : ℕ) : (evenStops d e count).length = count := by
  unfold evenStops
  rw [List.length_map, List.length_range]

theorem getElem?_evenStops (h : i < count) :
    (evenStops d e count)[i]? = some (d + (e - d) * (i / (count - 1 : ℕ))) := by
  unfold evenStops
  rw [List.getElem?_map, List.getElem?_range h]
  rfl

theorem evenStops_two (d e : ℝ) : evenStops d e 2 = [d, e] := by
  unfold evenStops
  simp [List.range_succ]

/-- Evenly spaced stops ascend from the one end to the other. -/
theorem evenStops_ascending (h : d < e) (hcount : 2 ≤ count) : (evenStops d e count).Pairwise (· < ·) := by
  have hpieces : (0 : ℝ) < (count - 1 : ℕ) := by exact_mod_cast (show 0 < count - 1 by omega)
  refine List.pairwise_map.mpr (List.pairwise_lt_range.imp fun hij => ?_)
  have hij' : ((_ : ℕ) : ℝ) < (_ : ℕ) := Nat.cast_lt.mpr hij
  have := mul_lt_mul_of_pos_left (div_lt_div_of_pos_right hij' hpieces) (sub_pos.mpr h)
  linarith

theorem head?_evenStops (hcount : 2 ≤ count) : (evenStops d e count).head? = some d := by
  rw [List.head?_eq_getElem?, getElem?_evenStops (by omega), Nat.cast_zero, zero_div, mul_zero, add_zero]

theorem getLast?_evenStops (hcount : 2 ≤ count) : (evenStops d e count).getLast? = some e := by
  have hpieces : ((count - 1 : ℕ) : ℝ) ≠ 0 := Nat.cast_ne_zero.mpr (by omega)
  rw [List.getLast?_eq_getElem?, length_evenStops, getElem?_evenStops (by omega), div_self hpieces, mul_one,
    add_sub_cancel]

/-- Where a number lies between evenly spaced stops, in pieces from the first stop on. -/
theorem fraction_evenStops {a b t : ℝ} (h : d < e) (ha : (evenStops d e count)[i]? = some a)
    (hb : (evenStops d e count)[i + 1]? = some b) :
    (t - a) / (b - a) = (t - d) / (e - d) * (count - 1 : ℕ) - i ∧ a < b := by
  have hi : i + 1 < count := by
    have := (List.getElem?_eq_some_iff.mp hb).1
    rwa [length_evenStops] at this
  rw [getElem?_evenStops (by omega), Option.some.injEq] at ha
  rw [getElem?_evenStops hi, Option.some.injEq] at hb
  have hpieces : (0 : ℝ) < (count - 1 : ℕ) := by exact_mod_cast (show 0 < count - 1 by omega)
  have hlength : 0 < e - d := sub_pos.mpr h
  have hpiece : b - a = (e - d) / (count - 1 : ℕ) := by
    rw [← ha, ← hb]
    push_cast
    field_simp
    ring
  constructor
  · rw [hpiece, ← ha]
    field_simp
    ring
  · have := div_pos hlength hpieces
    linarith

/-- A number of pieces, kept from zero to all of them, has its whole part in the piece `i`, the last piece included,
and reaches as far into the piece as the number does. -/
theorem floor_pieces {n : ℕ} {y : ℝ} (hi : i < n) (hfrom : 0 < i → (i : ℝ) ≤ y) (hto : i + 1 < n → y < i + 1) :
    max 0 (min ((n - 1 : ℕ) : ℤ) ⌊min (n : ℝ) (max 0 y)⌋) = i ∧
      min (n : ℝ) (max 0 y) - i = min 1 (max 0 (y - i)) := by
  have hn : (i : ℝ) + 1 ≤ n := by exact_mod_cast hi
  have hi' : (0 : ℝ) ≤ i := Nat.cast_nonneg i
  rcases lt_or_ge y 0 with hneg | hnonneg
  · -- before the first stop
    obtain rfl : i = 0 := by
      by_contra hne
      linarith [hfrom (by omega)]
    have hkept : min (n : ℝ) 0 = 0 := min_eq_right (Nat.cast_nonneg n)
    have hbefore : max 0 (y - ((0 : ℕ) : ℝ)) = 0 := max_eq_left (by simpa using hneg.le)
    rw [max_eq_left hneg.le, hkept, hbefore, Int.floor_zero, min_eq_right zero_le_one]
    exact ⟨by omega, by simp⟩
  · have hle : (i : ℝ) ≤ y := by
      rcases Nat.eq_zero_or_pos i with rfl | hpos
      · rwa [Nat.cast_zero]
      · exact hfrom hpos
    rw [max_eq_right hnonneg, max_eq_right (sub_nonneg.mpr hle)]
    by_cases hlast : i + 1 < n
    · have hlt := hto hlast
      have hfloor : ⌊y⌋ = i := Int.floor_eq_iff.mpr ⟨by exact_mod_cast hle, by exact_mod_cast hlt⟩
      have hkept : min (n : ℝ) y = y := min_eq_right (by linarith)
      have hpart : min 1 (y - i) = y - i := min_eq_right (by linarith)
      rw [hkept, hpart, hfloor]
      exact ⟨by omega, rfl⟩
    · -- the last piece goes on beyond its end, where the number is kept
      have hn' : (n : ℝ) = i + 1 := by exact_mod_cast (show n = i + 1 by omega)
      have hfloor : (i : ℤ) ≤ ⌊min (n : ℝ) y⌋ :=
        Int.le_floor.mpr (le_min (by push_cast; linarith) (by exact_mod_cast hle))
      refine ⟨by omega, ?_⟩
      rw [← min_sub_sub_right, hn', add_sub_cancel_left]

/-- The whole part of the position along a ramp is the piece that is found among evenly spaced stops. -/
theorem segmentAt_search {a b t : ℝ} (h : d < e) (ha : (evenStops d e count)[i]? = some a)
    (hb : (evenStops d e count)[i + 1]? = some b) (hlow : 0 < i → a ≤ t) (hhigh : i + 2 < count → t < b) :
    segmentAt count (Scalar.clamp 0 1 (finite ((t - d) / (e - d))))
      = (i, Scalar.clamp 0 1 (finite ((t - a) / (b - a)))) := by
  have hi : i + 1 < count := by
    have := (List.getElem?_eq_some_iff.mp hb).1
    rwa [length_evenStops] at this
  obtain ⟨hfraction, hab⟩ := fraction_evenStops (t := t) h ha hb
  obtain ⟨n, rfl⟩ : ∃ n, count = n + 1 := ⟨count - 1, by omega⟩
  rw [Nat.add_sub_cancel] at hfraction
  generalize hx : (t - d) / (e - d) = x at hfraction
  have hfrom : 0 < i → (i : ℝ) ≤ x * n := by
    intro hpos
    have := div_nonneg (sub_nonneg.mpr (hlow hpos)) (sub_pos.mpr hab).le
    linarith
  have hto : i + 1 < n → x * n < i + 1 := by
    intro hlast
    have := (div_lt_one (sub_pos.mpr hab)).mpr (show t - a < b - a by linarith [hhigh (by omega)])
    linarith
  have hscaled : min 1 (max 0 (min 1 (max 0 x))) * (n : ℝ) = min (n : ℝ) (max 0 (x * n)) := by
    have hn : (0 : ℝ) ≤ n := Nat.cast_nonneg n
    rw [max_eq_right (le_min zero_le_one (le_max_left 0 x)), min_eq_right (min_le_left _ _), min_mul_of_nonneg _ _ hn,
      max_mul_of_nonneg _ _ hn, one_mul, zero_mul]
  obtain ⟨hwhole, hrest⟩ := floor_pieces (by omega) hfrom hto
  have htruncate : ∀ k : ℤ, Scalar.truncate (finite k) = k := Extended.truncate_intCast
  unfold segmentAt Scalar.truncateWithin
  simp only [Extended.zero_eq, Extended.one_eq, Extended.clamp_finite, Extended.ofInt_eq, Extended.finite_mul,
    Extended.floor_finite, Extended.finite_sub, Nat.add_sub_cancel, Int.cast_natCast, hscaled, htruncate, hwhole,
    Int.toNat_natCast, hrest, hfraction]

/-! ## Scales over a ramp -/

namespace Continuous

variable {s : Continuous Extended} {ramp : ColorRamp} {w : Extended} {blend : ℕ → ℕ → Extended → String}

/-- The scale over `count` evenly spaced stops. -/
noncomputable def overEven (s : Continuous Extended) (d e : ℝ) (count : ℕ) : Continuous Extended :=
  s.withDomain ((evenStops d e count).map finite)

theorem overEven_two (s : Continuous Extended) (d e : ℝ) : s.overEven d e 2 = s.withDomain [finite d, finite e] := by
  unfold overEven
  rw [evenStops_two]
  rfl

theorem length_domain_overEven (s : Continuous Extended) (d e : ℝ) (count : ℕ) :
    (s.overEven d e count).domain.length = count := by
  show ((evenStops d e count).map finite).length = count
  rw [List.length_map, length_evenStops]

theorem stopCount_overEven (d e : ℝ) (hcount : count ≤ s.range.length) : (s.overEven d e count).stopCount = count := by
  show min (s.overEven d e count).domain.length s.range.length = count
  rw [length_domain_overEven, min_eq_left hcount]

theorem forward_overEven (hidentity : s.transform = .identity) (d e : ℝ) (count : ℕ) :
    (s.overEven d e count).forward = id := by
  funext v
  unfold forward
  rw [show (s.overEven d e count).transform = s.transform from rfl, hidentity]
  rfl

/-- Numbers are measured as they are, and blended between the slots that are found. -/
theorem mapBlending_overEven (hidentity : s.transform = .identity) (hcount : 2 ≤ count)
    (hlength : count ≤ s.range.length) :
    (s.overEven d e count).mapBlending blend w =
      (((s.overEven d e count).slots? w).map fun p =>
        (s.overEven d e count).blendBetween blend p.1 p.2.1 p.2.2).getD .null := by
  unfold mapBlending
  rw [stopCount_overEven d e hlength, forward_overEven hidentity]
  split
  · omega
  · omega
  · rfl

/-- The slots over evenly spaced stops: those at the ends of the last piece that does not start above the number, or
of the first one. What the number counts as does not depend on how many stops there are. -/
theorem slots?_overEven (hidentity : s.transform = .identity) (h : d < e) (hcount : 2 ≤ count)
    (hlength : count ≤ s.range.length) (hw : Scalar.isNaN w = false) :
    ∃ i a b, (evenStops d e count)[i]? = some a ∧ (evenStops d e count)[i + 1]? = some b ∧
      (0 < i → finite a ≤ s.clampTo [finite d, finite e] w) ∧
      (i + 2 < count → ¬ finite b ≤ s.clampTo [finite d, finite e] w) ∧
      (s.overEven d e count).slots? w
        = some (i, i + 1, (s.clampTo [finite d, finite e] w - finite a) / finite (b - a)) := by
  have hascending := evenStops_ascending h hcount
  have hstops : (s.overEven d e count).domainStops = (evenStops d e count).map finite := by
    unfold domainStops
    rw [forward_overEven hidentity, List.map_id, stopCount_overEven d e hlength]
    exact List.take_of_length_le (length_domain_overEven s d e count).le
  have hclamp : (s.overEven d e count).clampTo ((evenStops d e count).map finite) w
      = s.clampTo [finite d, finite e] w := by
    unfold clampTo
    rw [List.head?_map, List.getLast?_map, head?_evenStops hcount, getLast?_evenStops hcount]
    rfl
  have hproper : ((evenStops d e count).map finite).any (fun d => !Scalar.isFinite d) = false := by
    rw [List.any_eq_false]
    intro v hv
    obtain ⟨r, -, rfl⟩ := List.mem_map.mp hv
    exact Bool.false_ne_true
  have hdescends : descends ((evenStops d e count).map finite) = false := by
    have hknots : ((evenStops d e count).map fun r => (r, r)).map Prod.fst = evenStops d e count := by
      rw [List.map_map]
      exact List.map_id _
    rw [← hknots]
    refine descends_of_ascending (by rwa [hknots]) ?_
    rwa [List.length_map, length_evenStops]
  obtain ⟨i, a, b, ha, hb, -, hlow, hhigh, hpiece⟩ :=
    pieceOf?_search hascending (by rwa [length_evenStops]) (s.clampTo [finite d, finite e] w)
  rw [length_evenStops] at hhigh
  refine ⟨i, a, b, ha, hb, hlow, hhigh, ?_⟩
  unfold slots?
  simp only [hstops, hproper, hw, hdescends, hclamp, hpiece, Bool.or_self, if_neg Bool.false_ne_true, Option.map_some]

theorem slots?_of_isNaN (hw : Scalar.isNaN w = true) : s.slots? w = none := by
  unfold slots?
  dsimp only
  rw [hw, Bool.or_true, if_pos rfl]

/-- What is infinite has no color. -/
theorem blendBetween_of_not_finite {v a : Extended} (hv : Scalar.isFinite v = false) (i j : ℕ) (length : Extended) :
    s.blendBetween blend i j ((v - a) / length) = .null := by
  have hfraction : Scalar.isFinite ((v - a) / length) = false := by
    refine Bool.eq_false_iff.mpr fun hfinite => ?_
    have hfrom := Extended.isFinite_of_div hfinite
    rw [Extended.isFinite_sub, hv] at hfrom
    nomatch hfrom
  unfold blendBetween
  rw [hfraction]
  rfl

/-- Between two stops that spread over more colors, the colors are counted from the first stop on. -/
theorem blendBetween_of_two (hdomain : s.domain.length = 2) (hrange : 2 < s.range.length) (u : ℝ) :
    s.blendBetween blend 0 1 (finite u) =
      let p := segmentAt s.range.length (Scalar.clamp 0 1 (finite u))
      .string (blend p.1 (p.1 + 1) p.2) := by
  unfold blendBetween
  rw [Extended.isFinite_finite, Bool.not_true, if_neg Bool.false_ne_true]
  dsimp only
  rw [if_pos ⟨hdomain, hrange⟩, if_neg (Nat.not_lt_zero 1 <| ·)]

/-- Between more stops the colors are those of the slots. -/
theorem blendBetween_of_ne_two (hdomain : s.domain.length ≠ 2) (i j : ℕ) (u : ℝ) :
    s.blendBetween blend i j (finite u) = .string (blend i j (Scalar.clamp 0 1 (finite u))) := by
  unfold blendBetween
  rw [Extended.isFinite_finite, Bool.not_true, if_neg Bool.false_ne_true]
  exact if_neg fun hspread => hdomain hspread.1

/-- Two stops and evenly spaced stops lead to the same colors, however these are blended. -/
theorem mapBlending_spread (hidentity : s.transform = .identity) (h : d < e) (hrange : 3 ≤ s.range.length) :
    (s.overEven d e 2).mapBlending blend w = (s.overEven d e s.range.length).mapBlending blend w := by
  rw [mapBlending_overEven hidentity le_rfl (by omega), mapBlending_overEven hidentity (by omega) le_rfl]
  cases hw : Scalar.isNaN w with
  | true =>
    rw [slots?_of_isNaN hw, slots?_of_isNaN hw]
    rfl
  | false =>
    obtain ⟨i, _, _, ha, hb, -, -, hslots⟩ := slots?_overEven hidentity h le_rfl (show 2 ≤ s.range.length by omega) hw
    obtain ⟨j, a, b, ha', hb', hlow, hhigh, hslots'⟩ :=
      slots?_overEven hidentity h (show 2 ≤ s.range.length by omega) le_rfl hw
    obtain rfl : i = 0 := by
      have := (List.getElem?_eq_some_iff.mp hb).1
      rw [length_evenStops] at this
      omega
    rw [evenStops_two] at ha hb
    cases ha
    cases hb
    rw [hslots, hslots', Option.map_some, Option.map_some, Option.getD_some, Option.getD_some]
    dsimp only
    generalize s.clampTo [finite d, finite e] w = v at hlow hhigh
    cases hv : Scalar.isFinite v with
    | false => rw [blendBetween_of_not_finite hv, blendBetween_of_not_finite hv]
    | true =>
      obtain ⟨t, rfl⟩ := Extended.isFinite_iff.mp hv
      simp only [Extended.finite_le, not_le] at hlow hhigh
      have hab := (fraction_evenStops (t := t) h ha' hb').2
      have hdomain : (s.overEven d e s.range.length).domain.length ≠ 2 := by
        rw [length_domain_overEven]
        omega
      rw [Extended.finite_sub, Extended.finite_sub, Extended.finite_div (sub_pos.mpr h).ne',
        Extended.finite_div (sub_pos.mpr hab).ne', blendBetween_of_ne_two hdomain,
        blendBetween_of_two (length_domain_overEven s d e 2) hrange]
      rw [show (s.overEven d e 2).range.length = s.range.length from rfl, segmentAt_search h ha' hb' hlow hhigh]

/-- **Spreading agrees with evenly spaced stops.** Let a scale take numbers as they are and range over a ramp of at
least three colors, and let `d` be below `e`, in exact arithmetic. The scale over the two stops `d` and `e` and the one
over as many evenly spaced stops from `d` to `e` as the ramp has colors map everything to the same, infinite and
undefined numbers included, whether they clamp or not. They ask for the same blend of the same two colors: they do so
whatever function of two colors and a fraction the blend may be, of which the one that scales map by is a case. -/
theorem map_spread (hrange : s.range = .colors ramp) (hidentity : s.transform = .identity) (hramp : 3 ≤ ramp.length)
    (h : d < e) :
    (∀ w, (s.withDomain [finite d, finite e]).map w = (s.overEven d e ramp.length).map w) ∧
      (∀ (blend : ℕ → ℕ → Extended → String) w,
        (s.withDomain [finite d, finite e]).mapBlending blend w = (s.overEven d e ramp.length).mapBlending blend w) ∧
      ∀ domain w, (s.withDomain domain).map w = (s.withDomain domain).mapBlending ramp.mix w := by
  have hlength : s.range.length = ramp.length := by
    rw [hrange]
    rfl
  have hblending : ∀ (blend : ℕ → ℕ → Extended → String) w,
      (s.withDomain [finite d, finite e]).mapBlending blend w = (s.overEven d e ramp.length).mapBlending blend w := by
    intro blend w
    rw [← overEven_two, ← hlength]
    exact mapBlending_spread hidentity h (by omega)
  have hmap : ∀ domain w, (s.withDomain domain).map w = (s.withDomain domain).mapBlending ramp.mix w :=
    fun domain w => map_eq_mapBlending (s := s.withDomain domain) hrange w
  refine ⟨fun w => ?_, hblending, hmap⟩
  rw [hmap, hblending]
  exact (hmap _ w).symm

/-- A ramp of three colors from 0 to 10 has its second color at 5. -/
theorem map_spread_threeColors :
    let ramp : ColorRamp :=
      { stops := [⟨1, 0, 0⟩, ⟨1, 1, 1⟩, ⟨0, 0, 1⟩], space := .oklab, stops_ne_nil := List.cons_ne_nil _ _ }
    let s : Continuous Extended := (ofFamily .linear .identity).withRange (.colors ramp)
    s.range = .colors ramp ∧ s.transform = .identity ∧ 3 ≤ ramp.length ∧ (0 : ℝ) < 10 ∧
      ∀ w, (s.withDomain [finite 0, finite 10]).map w = (s.withDomain [finite 0, finite 5, finite 10]).map w := by
  intro ramp s
  have hrange : s.range = .colors ramp := rfl
  have hidentity : s.transform = .identity := rfl
  have hramp : 3 ≤ ramp.length := le_rfl
  have hends : (0 : ℝ) < 10 := by norm_num
  have hstops : (evenStops 0 10 ramp.length).map finite = [finite 0, finite 5, finite 10] := by
    show (evenStops 0 10 3).map finite = _
    unfold evenStops
    simp only [List.range_succ, List.range_zero, List.nil_append, List.cons_append, List.map_cons, List.map_nil]
    norm_num
  refine ⟨hrange, hidentity, hramp, hends, fun w => ?_⟩
  rw [← hstops]
  exact (map_spread hrange hidentity hramp hends).1 w

end Continuous

end VisualEncoding
