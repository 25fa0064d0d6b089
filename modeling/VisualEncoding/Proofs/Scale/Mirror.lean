import VisualEncoding.Proofs.Scalar.Extended
import VisualEncoding.Scale.Continuous

/-!
# Scales that mirror each other

Two scales over a numeric range mirror each other if what they give for a number sums up to the ends of the
range, or both give nothing. In exact arithmetic a scale with two stops is mirrored by the scale with its
domain the other way round (`map_mirrored_of_domain`), and by the one with its range the other way round
(`map_mirrored_of_range`).

The domain is harder, as a log scale takes its direction from the sign of the first stop. It matters only
where the stops are on different sides of zero, and there no log scale gives anything.
-/

namespace VisualEncoding

open Extended (finite)

/-- Two answers are nothing, or they are numbers with a sum. -/
def AreMirrored (total : Extended) (v w : Value Extended) : Prop :=
  v = .null ∧ w = .null ∨ ∃ y z, v = .number y ∧ w = .number z ∧ y + z = total

theorem AreMirrored.symm {total : Extended} {v w : Value Extended} (h : AreMirrored total v w) :
    AreMirrored total w v := by
  rcases h with ⟨hv, hw⟩ | ⟨y, z, hv, hw, hsum⟩
  · exact Or.inl ⟨hw, hv⟩
  · exact Or.inr ⟨z, y, hw, hv, (Extended.add_comm z y).trans hsum⟩

namespace Continuous

variable {s : Continuous Extended} {a b r r' t u x : Extended}

/-! ## Between two slots -/

/-- The number at a fraction of the way, if it is one. -/
noncomputable def between (r r' u : Extended) : Value Extended :=
  if Scalar.isFinite (r + (r' - r) * u) then .number (r + (r' - r) * u) else .null

theorem between_eq_null (h : ¬ (Scalar.isFinite r = true ∧ Scalar.isFinite r' = true ∧
    Scalar.isFinite u = true)) : between r r' u = .null := by
  unfold between
  rw [Extended.isFinite_add, Extended.isFinite_mul, Extended.isFinite_sub, if_neg]
  simp only [Bool.and_eq_true]
  intro ⟨hr, ⟨hr', _⟩, hu⟩
  exact h ⟨hr, hr', hu⟩

theorem between_finite (r r' u : ℝ) :
    between (finite r) (finite r') (finite u) = .number (finite (r + (r' - r) * u)) := by
  unfold between
  simp only [Extended.finite_sub, Extended.finite_mul, Extended.finite_add]
  exact if_pos rfl

/-- What lies between is a number only if both slots and the fraction are. -/
theorem between_cases (r r' u : Extended) :
    (between r r' u = .null ∧ between r' r u = .null) ∨
      ∃ x x' w : ℝ, r = finite x ∧ r' = finite x' ∧ u = finite w := by
  by_cases h : Scalar.isFinite r = true ∧ Scalar.isFinite r' = true ∧ Scalar.isFinite u = true
  · obtain ⟨x, hx⟩ := Extended.isFinite_iff.mp h.1
    obtain ⟨x', hx'⟩ := Extended.isFinite_iff.mp h.2.1
    obtain ⟨w, hw⟩ := Extended.isFinite_iff.mp h.2.2
    exact Or.inr ⟨x, x', w, hx, hx', hw⟩
  · refine Or.inl ⟨between_eq_null h, between_eq_null ?_⟩
    rintro ⟨hr', hr, hu⟩
    exact h ⟨hr, hr', hu⟩

theorem between_mirrored (r r' u : Extended) :
    AreMirrored (r + r') (between r r' u) (between r' r u) := by
  rcases between_cases r r' u with hnull | ⟨x, x', w, rfl, rfl, rfl⟩
  · exact Or.inl hnull
  · refine Or.inr ⟨_, _, between_finite x x' w, between_finite x' x w, ?_⟩
    rw [Extended.finite_add, Extended.finite_add]
    congr 1
    ring

/-- Halfway both ways meet. -/
theorem between_half_comm (r r' : Extended) : between r r' (1 / 2) = between r' r (1 / 2) := by
  rcases between_cases r r' (1 / 2) with hnull | ⟨x, x', w, rfl, rfl, hw⟩
  · rw [hnull.1, hnull.2]
  · rw [Extended.half_eq, between_finite, between_finite]
    congr 2
    ring

/-! ## Two stops -/

theorem valueBetween_first (hrange : s.range = .numbers [r, r']) (hround : s.round = false) :
    s.valueBetween 0 1 u = between r r' u := by
  unfold valueBetween between
  rw [hrange, hround]
  rfl

theorem valueBetween_second (hrange : s.range = .numbers [r, r']) (hround : s.round = false) :
    s.valueBetween 1 0 u = between r' r u := by
  unfold valueBetween between
  rw [hrange, hround]
  rfl

theorem mapTransformed_of_not_finite (hstops : s.domainStops = [a, b])
    (h : ¬ (Scalar.isFinite a = true ∧ Scalar.isFinite b = true)) : s.mapTransformed t = .null := by
  have hany : [a, b].any (fun d => !Scalar.isFinite d) = true := by
    rw [List.any_cons, List.any_cons, List.any_nil, Bool.or_false, ← Bool.not_and, Bool.not_eq_true',
      ← Bool.not_eq_true, Bool.and_eq_true]
    exact h
  unfold mapTransformed
  dsimp only
  rw [hstops, hany, Bool.true_or, if_pos rfl]

theorem mapTransformed_of_isNaN (h : Scalar.isNaN t = true) : s.mapTransformed t = .null := by
  unfold mapTransformed
  dsimp only
  rw [h, Bool.or_true, if_pos rfl]

/-- The fraction of the way from a lower to an upper stop at which a number lies, at most the whole way if
numbers are clamped. -/
noncomputable def place (clamp : Bool) (lo hi t : Extended) : Extended :=
  fractionBetween lo hi (if clamp then Scalar.clamp lo hi t else t)

/-- The value for a number among two finite stops. The greater one may stand first. -/
theorem mapTransformed_pair {p q : ℝ} (hcount : s.stopCount = 2)
    (hstops : s.domainStops = [finite p, finite q]) (hrange : s.range = .numbers [r, r'])
    (hround : s.round = false) (ht : Scalar.isNaN t = false) :
    s.mapTransformed t =
      if q < p then between r' r (place s.clamp (finite q) (finite p) t)
      else between r r' (place s.clamp (finite p) (finite q) t) := by
  have hdescends : descends [finite p, finite q] = decide (q < p) :=
    decide_eq_decide.mpr Extended.finite_lt
  have hclamp : ∀ lo hi : Extended,
      s.clampTo [lo, hi] t = if s.clamp then Scalar.clamp lo hi t else t := by
    intro lo hi
    unfold clampTo
    cases s.clamp <;> rfl
  unfold mapTransformed place
  dsimp only
  rw [hstops, ht, hcount, hdescends]
  by_cases h : q < p
  · rw [decide_eq_true h, if_pos h, ← hclamp, ← valueBetween_second hrange hround]
    rfl
  · rw [decide_eq_false h, if_neg h, ← hclamp, ← valueBetween_first hrange hround]
    rfl

/-- Between stops in the same place every number lies halfway. -/
theorem place_self (clamp : Bool) (p : ℝ) (t : Extended) : place clamp (finite p) (finite p) t = 1 / 2 :=
  if_pos (Extended.finite_beq.mpr rfl)

/-- Scales with the same stops over a range in both directions mirror each other. -/
theorem mapTransformed_mirrored_of_range {s' : Continuous Extended} (hstops : s.domainStops = [a, b])
    (hstops' : s'.domainStops = [a, b]) (hclamp : s'.clamp = s.clamp) (hcount : s.stopCount = 2)
    (hcount' : s'.stopCount = 2) (hrange : s.range = .numbers [r, r'])
    (hrange' : s'.range = .numbers [r', r]) (hround : s.round = false) (hround' : s'.round = false) :
    AreMirrored (r + r') (s.mapTransformed t) (s'.mapTransformed t) := by
  by_cases hfinite : Scalar.isFinite a = true ∧ Scalar.isFinite b = true
  · obtain ⟨p, rfl⟩ := Extended.isFinite_iff.mp hfinite.1
    obtain ⟨q, rfl⟩ := Extended.isFinite_iff.mp hfinite.2
    cases ht : Scalar.isNaN t with
    | true => exact Or.inl ⟨mapTransformed_of_isNaN ht, mapTransformed_of_isNaN ht⟩
    | false =>
      rw [mapTransformed_pair hcount hstops hrange hround ht,
        mapTransformed_pair hcount' hstops' hrange' hround' ht, hclamp]
      split
      · exact (between_mirrored r r' _).symm
      · exact between_mirrored r r' _
  · exact Or.inl ⟨mapTransformed_of_not_finite hstops hfinite,
      mapTransformed_of_not_finite hstops' hfinite⟩

/-- Scales with the stops in both orders over the same range mirror each other. -/
theorem mapTransformed_mirrored_of_stops {s' : Continuous Extended} (hstops : s.domainStops = [a, b])
    (hstops' : s'.domainStops = [b, a]) (hclamp : s'.clamp = s.clamp) (hcount : s.stopCount = 2)
    (hcount' : s'.stopCount = 2) (hrange : s.range = .numbers [r, r'])
    (hrange' : s'.range = .numbers [r, r']) (hround : s.round = false) (hround' : s'.round = false) :
    AreMirrored (r + r') (s.mapTransformed t) (s'.mapTransformed t) := by
  by_cases hfinite : Scalar.isFinite a = true ∧ Scalar.isFinite b = true
  · obtain ⟨p, rfl⟩ := Extended.isFinite_iff.mp hfinite.1
    obtain ⟨q, rfl⟩ := Extended.isFinite_iff.mp hfinite.2
    cases ht : Scalar.isNaN t with
    | true => exact Or.inl ⟨mapTransformed_of_isNaN ht, mapTransformed_of_isNaN ht⟩
    | false =>
      rw [mapTransformed_pair hcount hstops hrange hround ht,
        mapTransformed_pair hcount' hstops' hrange' hround' ht, hclamp]
      rcases lt_trichotomy p q with hup | rfl | hdown
      · rw [if_neg hup.not_gt, if_pos hup]
        exact between_mirrored r r' _
      · -- the two scales give the same, which is the middle
        rw [if_neg (lt_irrefl p), place_self]
        have h := between_mirrored r r' (1 / 2)
        rwa [between_half_comm r' r] at h
      · rw [if_pos hdown, if_neg hdown.not_gt]
        exact (between_mirrored r r' _).symm
  · refine Or.inl ⟨mapTransformed_of_not_finite hstops hfinite,
      mapTransformed_of_not_finite hstops' ?_⟩
    exact fun h => hfinite h.symm

/-! ## Domains in both directions -/

/-- Only stops on one side of zero have finite logarithms. -/
theorem log_stops_of_sides {base : Extended} (h : ¬ (0 < a ∧ 0 < b)) (h' : ¬ (a < 0 ∧ b < 0)) :
    ¬ (Scalar.isFinite (Scalar.reflectedLog base (decide (a < 0)) a) = true ∧
      Scalar.isFinite (Scalar.reflectedLog base (decide (a < 0)) b) = true) := by
  rintro ⟨ha, hb⟩
  unfold Scalar.reflectedLog at ha hb
  by_cases hneg : a < 0
  · rw [decide_eq_true hneg, if_pos rfl, Extended.isFinite_neg] at hb
    obtain ⟨y, hy, hby⟩ := Extended.isFinite_log hb
    refine h' ⟨hneg, ?_⟩
    rw [Extended.zero_eq, ← Extended.neg_neg b, hby, Extended.neg_finite, Extended.finite_lt]
    exact neg_neg_of_pos hy
  · rw [decide_eq_false hneg, if_neg Bool.false_ne_true] at ha hb
    obtain ⟨x, hx, rfl⟩ := Extended.isFinite_log ha
    obtain ⟨y, hy, rfl⟩ := Extended.isFinite_log hb
    rw [Extended.zero_eq, Extended.finite_lt, Extended.finite_lt] at h
    exact h ⟨hx, hy⟩

/-- The scale with another pair of stops. -/
def withPair (s : Continuous Extended) (a b : Extended) : Continuous Extended :=
  { s with domain := [a, b] }

theorem stopCount_withPair (hrange : s.range = .numbers [r, r']) : (s.withPair a b).stopCount = 2 := by
  unfold stopCount
  show min 2 s.range.length = 2
  rw [hrange]
  rfl

theorem domainStops_withPair (hrange : s.range = .numbers [r, r']) :
    (s.withPair a b).domainStops = [(s.withPair a b).forward a, (s.withPair a b).forward b] := by
  unfold domainStops
  rw [stopCount_withPair hrange]
  rfl

theorem map_withPair (hrange : s.range = .numbers [r, r']) (x : Extended) :
    (s.withPair a b).map x = (s.withPair a b).mapTransformed ((s.withPair a b).forward x) := by
  unfold map
  rw [stopCount_withPair hrange]
  rfl

/-- A log scale whose stops are not on one side of zero gives nothing. -/
theorem map_of_sides {base : Extended} (htransform : s.transform = .log base)
    (hrange : s.range = .numbers [r, r']) (h : ¬ (0 < a ∧ 0 < b)) (h' : ¬ (a < 0 ∧ b < 0)) :
    (s.withPair a b).map x = .null := by
  rw [map_withPair hrange]
  refine mapTransformed_of_not_finite (domainStops_withPair hrange) ?_
  have hforward : (s.withPair a b).forward = Scalar.reflectedLog base (decide (a < 0)) := by
    funext y
    unfold forward withPair
    rw [htransform]
    rfl
  rw [hforward]
  exact log_stops_of_sides h h'

/-- Over a range in both directions a scale mirrors itself. -/
theorem map_mirrored_of_range (hrange : s.range = .numbers [r, r']) (hround : s.round = false)
    (x : Extended) :
    AreMirrored (r + r') ((s.withPair a b).map x) ((s.reversed.withPair a b).map x) := by
  have hrange' : s.reversed.range = .numbers [r', r] := by
    show s.range.reversed = _
    rw [hrange]
    rfl
  rw [map_withPair hrange, map_withPair hrange']
  exact mapTransformed_mirrored_of_range (domainStops_withPair hrange) (domainStops_withPair hrange') rfl
    (stopCount_withPair hrange) (stopCount_withPair hrange') hrange hrange' hround hround

/-- With its domain in both directions a scale mirrors itself. -/
theorem map_mirrored_of_domain (hrange : s.range = .numbers [r, r']) (hround : s.round = false)
    (x : Extended) : AreMirrored (r + r') ((s.withPair a b).map x) ((s.withPair b a).map x) := by
  have hsame (hforward : (s.withPair b a).forward = (s.withPair a b).forward) :
      AreMirrored (r + r') ((s.withPair a b).map x) ((s.withPair b a).map x) := by
    have hstops' := domainStops_withPair (a := b) (b := a) hrange
    rw [map_withPair hrange, map_withPair hrange]
    rw [hforward] at hstops' ⊢
    exact mapTransformed_mirrored_of_stops (domainStops_withPair hrange) hstops' rfl
      (stopCount_withPair hrange) (stopCount_withPair hrange) hrange hrange hround hround
  cases htransform : s.transform with
  | identity =>
    refine hsame ?_
    funext y
    unfold forward withPair
    rw [htransform]
  | pow exponent =>
    refine hsame ?_
    funext y
    unfold forward withPair
    rw [htransform]
  | log base =>
    have hreflected (h : decide (a < 0) = decide (b < 0)) :
        (s.withPair b a).forward = (s.withPair a b).forward := by
      funext y
      unfold forward isReflected withPair
      rw [htransform]
      show Scalar.reflectedLog base (decide (b < 0)) y = Scalar.reflectedLog base (decide (a < 0)) y
      rw [h]
    by_cases hneg : a < 0 ∧ b < 0
    · exact hsame (hreflected (decide_eq_decide.mpr ⟨fun _ => hneg.2, fun _ => hneg.1⟩))
    · by_cases hpos : 0 < a ∧ 0 < b
      · have ha := Extended.lt_asymm hpos.1
        have hb := Extended.lt_asymm hpos.2
        exact hsame (hreflected (decide_eq_decide.mpr ⟨fun h => absurd h ha, fun h => absurd h hb⟩))
      · refine Or.inl ⟨map_of_sides htransform hrange hpos hneg, ?_⟩
        refine map_of_sides htransform hrange ?_ ?_
        · exact fun h => hpos h.symm
        · exact fun h => hneg h.symm

/-- What holds of numbers holds of the values that stand for them. -/
theorem apply_mirrored {s' : Continuous Extended} {total : Extended} (hfamily : s'.family = s.family)
    (h : ∀ x, AreMirrored total (s.map x) (s'.map x)) (v : Value Extended) :
    AreMirrored total (s.apply v) (s'.apply v) := by
  have hof : s'.ofValue? v = s.ofValue? v := by
    unfold ofValue?
    rw [hfamily]
  unfold apply
  rw [hof]
  cases s.ofValue? v with
  | none => exact Or.inl ⟨rfl, rfl⟩
  | some x => exact h x

end Continuous

end VisualEncoding
