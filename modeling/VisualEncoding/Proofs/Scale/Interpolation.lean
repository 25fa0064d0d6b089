import VisualEncoding.Proofs.Scale.Knots

/-!
# Scales interpolate

What a continuous scale over numbers does between, at and beyond its stops (`map_interpolates`) is read off the broken
line that it is. A part of the line is the line through the stops of that part, so between stops only these matter
(`RunsOver.onLine_part`): two neighbouring ones interpolate, and those with monotone slots are monotone. Beyond the
ends a scale that clamps counts a number as the stop at the end (`RunsOver.forward_beyond`).

Reversing both the domain and the range turns the line round, which makes it no other line. That holds of numbers
without a place on the line, too, so it is shown of the search itself (`IsReverse.mapTransformed`): of two scales with
reversed lists, exactly one reverses them once more before it searches.
-/

namespace VisualEncoding

open Extended (finite infinite)

namespace Continuous

variable {part : List (ℝ × ℝ)} {i j : ℕ} {p q : ℝ × ℝ} {s s' : Continuous Extended} {m : Transform ℝ}
  {ds rs : List ℝ} {w : Extended} {x y u : ℝ}

/-! ## Both lists in reverse -/

/-- The piece of a number is one of the pieces. -/
theorem index_of_pieceOf? {stops : List Extended} {piece : Piece Extended} (h : pieceOf? stops w = some piece) :
    piece.index + 1 < stops.length := by
  unfold pieceOf? at h
  obtain ⟨low, -, h⟩ := Option.bind_eq_some_iff.mp h
  obtain ⟨high, hhigh, h⟩ := Option.bind_eq_some_iff.mp h
  cases h
  exact (List.getElem?_eq_some_iff.mp hhigh).1

/-- Two scales of which one has the stops and the slots of the other in reverse. -/
structure IsReverse (s s' : Continuous Extended) (outputs : List Extended) : Prop where
  stops : s'.domainStops = s.domainStops.reverse
  length : s.domainStops.length = outputs.length
  range : s.range = .numbers outputs
  range_reverse : s'.range = .numbers outputs.reverse
  count : s.stopCount = outputs.length
  count_reverse : s'.stopCount = outputs.length
  clamp : s'.clamp = s.clamp
  round : s'.round = s.round

variable {outputs : List Extended}

theorem IsReverse.symm (h : IsReverse s s' outputs) : IsReverse s' s outputs.reverse where
  stops := by rw [h.stops, List.reverse_reverse]
  length := by rw [h.stops, List.length_reverse, List.length_reverse, h.length]
  range := h.range_reverse
  range_reverse := by rw [h.range, List.reverse_reverse]
  count := by rw [h.count_reverse, List.length_reverse]
  count_reverse := by rw [h.count, List.length_reverse]
  clamp := h.clamp.symm
  round := h.round.symm

/-- The scale that descends searches the stops in the order of the one that ascends, and finds the same slots. -/
theorem IsReverse.mapTransformed (h : IsReverse s s' outputs) (hup : descends s.domainStops = false)
    (hdown : descends s'.domainStops = true) (w : Extended) : s'.mapTransformed w = s.mapTransformed w := by
  have hclamp : s'.clampTo s.domainStops w = s.clampTo s.domainStops w := by
    unfold clampTo
    rw [h.clamp]
  have hslots : ∀ i j u, i < outputs.length → j < outputs.length →
      s'.valueBetween (outputs.length - 1 - i) (outputs.length - 1 - j) u = s.valueBetween i j u := by
    intro i j u hi hj
    unfold valueBetween
    rw [h.range, h.range_reverse, h.round]
    simp only [List.getElem?_reverse (show outputs.length - 1 - i < outputs.length by omega),
      List.getElem?_reverse (show outputs.length - 1 - j < outputs.length by omega),
      show outputs.length - 1 - (outputs.length - 1 - i) = i by omega,
      show outputs.length - 1 - (outputs.length - 1 - j) = j by omega]
  unfold Continuous.mapTransformed
  simp only [hup, hdown, if_true, if_neg Bool.false_ne_true, h.count, h.count_reverse]
  rw [h.stops, List.reverse_reverse, List.any_reverse, hclamp]
  split
  · rfl
  · cases hpiece : pieceOf? s.domainStops (s.clampTo s.domainStops w) with
    | none => rfl
    | some piece =>
      have hindex := index_of_pieceOf? hpiece
      rw [h.length] at hindex
      exact hslots _ _ _ (by omega) (by omega)

/-- A scale with its domain and its range in reverse. -/
def turned (s : Continuous Extended) : Continuous Extended := s.reversed.withDomain s.domain.reverse

namespace RunsOver

theorem turned (h : s.RunsOver m ds rs) (hlengths : ds.length = rs.length) :
    s.turned.RunsOver m ds.reverse rs.reverse := by
  have hzip : ds.reverse.zip rs.reverse = (ds.zip rs).reverse := (List.reverse_zipWith hlengths).symm
  refine ⟨h.transform, h.isProper, ?_, ?_, h.round, ?_, fun base hbase => ?_⟩
  · show s.domain.reverse = _
    rw [h.domain, List.map_reverse]
  · show s.range.reversed = _
    rw [h.range, List.map_reverse]
    rfl
  · rw [hzip, List.length_reverse]
    exact h.two
  · simpa only [hzip, List.mem_reverse] using h.one_sign base hbase

/-- The first and the last stop have the same sign if it matters. -/
theorem forward_turned (h : s.RunsOver m ds rs) (hlengths : ds.length = rs.length) :
    s.turned.forward = s.forward := by
  have hturned := h.turned hlengths
  funext v
  unfold forward
  rw [hturned.transform, h.transform]
  cases m with
  | identity | pow => rfl
  | log base =>
    obtain ⟨p, hp⟩ := List.exists_mem_of_length_pos (show 0 < (ds.zip rs).length by have := h.two; omega)
    have hp' : p ∈ ds.reverse.zip rs.reverse := by
      rw [List.zip, ← List.reverse_zipWith hlengths]
      exact List.mem_reverse.mpr hp
    have hside : OnSide s.isReflected p.1 := h.accepts hp
    have hside' : OnSide s.turned.isReflected p.1 := hturned.accepts hp'
    show Scalar.reflectedLog _ s.turned.isReflected v = Scalar.reflectedLog _ s.isReflected v
    rw [← hside.decide_lt, ← hside'.decide_lt]

theorem isReverse_turned (h : s.RunsOver m ds rs) (hlengths : ds.length = rs.length) :
    IsReverse s s.turned (rs.map finite) := by
  have hturned := h.turned hlengths
  have hcount : s.stopCount = rs.length := by
    rw [h.stopCount, List.length_zip, hlengths, min_self]
  have hcount' : s.turned.stopCount = rs.length := by
    rw [hturned.stopCount, List.length_zip, List.length_reverse, List.length_reverse, hlengths, min_self]
  have hdomain : s.domain.length = rs.length := by rw [h.domain, List.length_map, hlengths]
  have hall : s.domainStops = s.domain.map s.forward := by
    unfold domainStops
    rw [List.take_of_length_le (by omega)]
  refine ⟨?_, ?_, h.range, ?_, ?_, ?_, rfl, rfl⟩
  · show (s.domain.reverse.take s.turned.stopCount).map s.turned.forward = _
    rw [h.forward_turned hlengths, List.take_of_length_le (by rw [List.length_reverse]; omega), hall, List.map_reverse]
  · rw [hall, List.length_map, List.length_map, hdomain]
  · rw [hturned.range, List.map_reverse]
  · rw [hcount, List.length_map]
  · rw [hcount', List.length_map]

/-- A scale with as many stops as slots is not changed by reversing both. -/
theorem map_turned (h : s.RunsOver m ds rs) (hsteady : s.IsSteadyOver m ds rs) (hlengths : ds.length = rs.length)
    (w : Extended) : s.turned.map w = s.map w := by
  have hreverse := h.isReverse_turned hlengths
  have htwo : 2 ≤ (s.measured m (ds.zip rs)).reverse.length := by
    rw [List.length_reverse]
    exact h.two_knots
  have hstops := h.hasKnots.stops
  have hstops' : s.turned.domainStops = ((s.measured m (ds.zip rs)).reverse.map Prod.fst).map finite := by
    rw [hreverse.stops, hstops, List.map_reverse, List.map_reverse]
  rw [(h.turned hlengths).map_eq, h.map_eq, h.forward_turned hlengths]
  rcases hsteady.measured.ascending with hknots | hknots
  · refine hreverse.mapTransformed ?_ ?_ (s.forward w)
    · rw [hstops]
      exact descends_of_ascending hknots h.two_knots
    · rw [hstops']
      exact descends_of_reverse (by rwa [List.reverse_reverse]) htwo
  · refine (hreverse.symm.mapTransformed ?_ ?_ (s.forward w)).symm
    · rw [hstops']
      exact descends_of_ascending hknots htwo
    · rw [hstops]
      exact descends_of_reverse hknots h.two_knots

/-! ## Between stops -/

/-- Between stops, a number is mapped to the point of the line through these stops alone. -/
theorem onLine_part (h : s.RunsOver m ds rs) (hsteady : s.IsSteadyOver m ds rs) (hpart : part <:+: ds.zip rs)
    (hlength : 2 ≤ part.length) (hx : Encloses (part.map Prod.fst) x) (hy : s.map (finite x) = .number (finite y)) :
    OnLine (s.measured m part) (m.measure s.isReflected x) y := by
  obtain ⟨haccept, hspan⟩ := h.encloses_measure hpart.subset hx
  obtain ⟨r, y', hcounts, hmap, hline⟩ := h.exists_point_of_accepts hsteady haccept
  obtain rfl : y = y' := Extended.finite.inj (Value.number.inj (hy.symm.trans hmap))
  have hpart' : s.measured m part <:+: s.measured m (ds.zip rs) := hpart.map _
  rw [hcounts.eq_of_encloses fun _ => hspan.mono (List.map_subset _ hpart'.subset)] at hline
  exact hline.on_part hsteady.measured hpart' (by rwa [length_measured]) hspan

/-- A number that counts as a stop is mapped to the slot of the stop. -/
theorem map_of_countsAs (h : s.RunsOver m ds rs) (hsteady : s.IsSteadyOver m ds rs) (hp : p ∈ ds.zip rs)
    (hw : Scalar.isNaN (s.forward w) = false) (hfinite : s.clamp = false → Scalar.isFinite (s.forward w) = true)
    (hstop : ∀ r, CountsAs s.clamp ((s.measured m (ds.zip rs)).map Prod.fst) (s.forward w) r →
      r = m.measure s.isReflected p.1) :
    s.map w = .number (finite p.2) := by
  obtain ⟨r, y, hcounts, hmap, hline⟩ := h.exists_point hsteady hw hfinite
  have hmem : (m.measure s.isReflected p.1, p.2) ∈ s.measured m (ds.zip rs) := List.mem_map_of_mem hp
  have hknot := onLine_of_mem h.two_knots hmem
  rw [hstop r hcounts] at hline
  rw [hmap, hline.eq hsteady.measured hknot]

/-- A stop is mapped to its slot. -/
theorem map_stop (h : s.RunsOver m ds rs) (hsteady : s.IsSteadyOver m ds rs) (hp : p ∈ ds.zip rs) :
    s.map (finite p.1) = .number (finite p.2) := by
  have hforward := forward_finite h.transform h.isProper (h.accepts hp)
  refine h.map_of_countsAs hsteady hp ?_ ?_ ?_
  · rw [hforward]
    rfl
  · rw [hforward]
    exact fun _ => rfl
  · rw [hforward]
    intro r hcounts
    exact hcounts.eq_of_encloses fun _ => encloses_of_mem (measure_mem s m hp)

/-- Between neighbouring stops measures and slots are in proportion. -/
theorem map_between (h : s.RunsOver m ds rs) (hsteady : s.IsSteadyOver m ds rs) (hpart : [p, q] <:+: ds.zip rs)
    (hx : x ∈ Set.uIcc p.1 q.1) (hy : s.map (finite x) = .number (finite y)) :
    y = p.2 + (q.2 - p.2) * ((m.measure s.isReflected x - m.measure s.isReflected p.1) /
      (m.measure s.isReflected q.1 - m.measure s.isReflected p.1)) := by
  have hpair : IsSteady ([p, q].map fun p => m.measure s.isReflected p.1) := hsteady.sublist (hpart.sublist.map _)
  have hne : m.measure s.isReflected p.1 ≠ m.measure s.isReflected q.1 := by
    rcases hpair with hlt | hgt
    · exact (List.rel_of_pairwise_cons hlt (List.mem_singleton_self _)).ne
    · exact (List.rel_of_pairwise_cons hgt (List.mem_singleton_self _)).ne'
  exact onLine_pair hne (h.onLine_part hsteady hpart le_rfl (encloses_pair hx) hy)

/-! ## Monotone slots -/

/-- Between stops whose slots are monotone, the scale is. -/
theorem map_monotoneOn (h : s.RunsOver m ds rs) (hsteady : s.IsSteadyOver m ds rs) {F : ℝ → ℝ}
    (hF : ∀ x, m.Accepts s.isReflected x → s.map (finite x) = .number (finite (F x))) (hpart : part <:+: ds.zip rs)
    (hslots : IsMonotone (part.map Prod.snd)) :
    MonotoneOn F {x | Encloses (part.map Prod.fst) x} ∨ AntitoneOn F {x | Encloses (part.map Prod.fst) x} := by
  by_cases hlength : 2 ≤ part.length
  · have hsub : {x | Encloses (part.map Prod.fst) x} ⊆ {x | m.Accepts s.isReflected x} :=
      fun x hx => (h.encloses_measure hpart.subset hx).1
    have hline : ∀ x ∈ {x | Encloses (part.map Prod.fst) x},
        OnLine (s.measured m part) (m.measure s.isReflected x) (F x) :=
      fun x hx => h.onLine_part hsteady hpart hlength hx (hF x (hsub hx))
    refine monotone_of_onLine ?_ ?_ ?_ hline
    · rw [measured_fst]
      exact hsteady.sublist (hpart.sublist.map _)
    · rwa [measured_snd]
    · exact (Transform.measure_steady h.isProper s.isReflected).imp (fun hmono => hmono.monotoneOn.mono hsub)
        fun hanti => hanti.antitoneOn.mono hsub
  · -- fewer than two stops do not enclose two numbers
    refine .inl (Set.Subsingleton.monotoneOn F ?_)
    intro x hx y hy
    match part with
    | [] => nomatch hx.1
    | [a] =>
      have hsame : ∀ z, Encloses [a.1] z → z = a.1 := by
        intro z hz
        obtain ⟨⟨b, hb, hbz⟩, c, hc, hzc⟩ := hz
        rw [List.mem_singleton] at hb hc
        linarith
      rw [hsame x hx, hsame y hy]
    | a :: b :: rest => exact absurd (by simp) hlength

/-- If all the slots are monotone, the scale is. -/
theorem map_monotone (h : s.RunsOver m ds rs) (hsteady : s.IsSteadyOver m ds rs) {F : ℝ → ℝ}
    (hF : ∀ x, m.Accepts s.isReflected x → s.map (finite x) = .number (finite (F x)))
    (hslots : IsMonotone ((ds.zip rs).map Prod.snd)) :
    MonotoneOn F {x | m.Accepts s.isReflected x} ∨ AntitoneOn F {x | m.Accepts s.isReflected x} := by
  have hpoint : ∀ x, ∃ r, m.Accepts s.isReflected x →
      CountsAs s.clamp ((s.measured m (ds.zip rs)).map Prod.fst) (finite (m.measure s.isReflected x)) r ∧
        OnLine (s.measured m (ds.zip rs)) r (F x) := by
    intro x
    by_cases hx : m.Accepts s.isReflected x
    · obtain ⟨r, y, hcounts, hmap, hline⟩ := h.exists_point_of_accepts hsteady hx
      obtain rfl : F x = y := Extended.finite.inj (Value.number.inj ((hF x hx).symm.trans hmap))
      exact ⟨r, fun _ => ⟨hcounts, hline⟩⟩
    · exact ⟨0, fun hx' => absurd hx' hx⟩
  choose pos hpos using hpoint
  have hline : ∀ x ∈ {x | m.Accepts s.isReflected x}, OnLine (s.measured m (ds.zip rs)) (pos x) (F x) :=
    fun x hx => (hpos x hx).2
  refine monotone_of_onLine hsteady.measured (by rwa [measured_snd]) ?_ hline
  -- clamping keeps the order
  refine (Transform.measure_steady h.isProper s.isReflected).imp (fun hmono x hx x' hx' hle => ?_)
    fun hanti x hx x' hx' hle => ?_
  · exact (hpos x hx).1.le_of_le (hpos x' hx').1 (Extended.finite_le.mpr (hmono.monotoneOn hx hx' hle))
  · exact (hpos x' hx').1.le_of_le (hpos x hx).1 (Extended.finite_le.mpr (hanti.antitoneOn hx hx' hle))

/-! ## Beyond the ends -/

/-- Numbers beyond an end have transforms beyond that of the end. -/
theorem forward_beyond (h : s.RunsOver m ds rs) (hp : p ∈ ds.zip rs) (hw : Scalar.isNaN (s.forward w) = false)
    (hbeyond : IsBeyond ((ds.zip rs).map Prod.fst) p.1 w) :
    IsBeyond ((s.measured m (ds.zip rs)).map Prod.fst) (m.measure s.isReflected p.1) (s.forward w) := by
  have hforward : ∀ q ∈ ds.zip rs, s.forward (finite q.1) = finite (m.measure s.isReflected q.1) :=
    fun q hq => forward_finite h.transform h.isProper (h.accepts hq)
  have hstops : ∀ {le : Extended → Extended → Prop}, s.Orders m le → ∀ a ∈ ds.zip rs, ∀ b ∈ ds.zip rs, a.1 ≤ b.1 →
      le (finite (m.measure s.isReflected a.1)) (finite (m.measure s.isReflected b.1)) := by
    intro le horder a ha b hb hle
    have hstop := (horder (finite a.1) b.1 (by rw [hforward a ha]; rfl) (h.accepts hb)).1 (Extended.finite_le.mpr hle)
    rwa [hforward a ha] at hstop
  rw [measured_fst]
  unfold IsBeyond at hbeyond ⊢
  simp only [List.forall_mem_map] at hbeyond ⊢
  rcases forward_order h.transform h.isProper with horder | horder
  · refine hbeyond.imp (fun hlow => ⟨fun q hq => ?_, ?_⟩) fun hhigh => ⟨fun q hq => ?_, ?_⟩
    · exact Extended.finite_le.mp (hstops horder p hp q hq (hlow.1 q hq))
    · exact (horder w p.1 hw (h.accepts hp)).1 hlow.2
    · exact Extended.finite_le.mp (hstops horder q hq p hp (hhigh.1 q hq))
    · exact (horder w p.1 hw (h.accepts hp)).2 hhigh.2
  · -- the end on the other side
    refine hbeyond.symm.imp (fun hhigh => ⟨fun q hq => ?_, ?_⟩) fun hlow => ⟨fun q hq => ?_, ?_⟩
    · exact Extended.finite_le.mp (hstops horder q hq p hp (hhigh.1 q hq))
    · exact (horder w p.1 hw (h.accepts hp)).2 hhigh.2
    · exact Extended.finite_le.mp (hstops horder p hp q hq (hlow.1 q hq))
    · exact (horder w p.1 hw (h.accepts hp)).1 hlow.2

/-- With clamping, numbers beyond an end are mapped to the slot of the end, -/
theorem map_beyond (h : s.RunsOver m ds rs) (hsteady : s.IsSteadyOver m ds rs) (hclamp : s.clamp = true)
    (hp : p ∈ ds.zip rs) (hw : Scalar.isNaN (s.forward w) = false)
    (hbeyond : IsBeyond ((ds.zip rs).map Prod.fst) p.1 w) : s.map w = .number (finite p.2) := by
  refine h.map_of_countsAs hsteady hp hw (fun hfalse => nomatch hclamp.symm.trans hfalse) fun r hcounts => ?_
  exact (hcounts.confined hclamp).eq_of_beyond (measure_mem s m hp) (h.forward_beyond hp hw hbeyond)

/-- and no number is mapped to one that does not lie between slots. -/
theorem map_enclosed (h : s.RunsOver m ds rs) (hsteady : s.IsSteadyOver m ds rs) (hclamp : s.clamp = true)
    (hw : Scalar.isNaN (s.forward w) = false) :
    ∃ y, s.map w = .number (finite y) ∧ Encloses ((ds.zip rs).map Prod.snd) y := by
  obtain ⟨r, y, hcounts, hmap, hline⟩ := h.exists_point hsteady hw fun hfalse => nomatch hclamp.symm.trans hfalse
  have henclosed := hline.encloses hsteady.measured (hcounts.confined hclamp).encloses
  rw [measured_snd] at henclosed
  exact ⟨y, hmap, henclosed⟩

end RunsOver

/-! ## Interpolation -/

/-- **Scales interpolate.** Let the measures of at least two stops of a domain, which are of one sign on a log scale,
go in one direction, and let there be no rounding. Then everything between the stops has a transform, and the scale
is a function `F` on the real numbers that have one:

* a stop is mapped to its slot,
* between neighbouring stops the measures are in proportion to what is mapped to,
* between stops whose slots are monotone the scale is, and everywhere if all slots are monotone;
* with clamping, everything that has a transform and lies beyond an end is mapped to the slot of the end, and nothing
  is mapped to what does not lie between slots;
* if there are as many stops as slots, the scale with both in reverse maps everything to the same. -/
theorem map_interpolates (h : s.RunsOver m ds rs) (hsteady : s.IsSteadyOver m ds rs) :
    (∀ x, Encloses ((ds.zip rs).map Prod.fst) x → m.Accepts s.isReflected x) ∧
      (∃ F : ℝ → ℝ, (∀ x, m.Accepts s.isReflected x → s.map (finite x) = .number (finite (F x))) ∧
        (∀ p ∈ ds.zip rs, F p.1 = p.2) ∧
        (∀ p q x, [p, q] <:+: ds.zip rs → x ∈ Set.uIcc p.1 q.1 →
          F x = p.2 + (q.2 - p.2) * ((m.measure s.isReflected x - m.measure s.isReflected p.1) /
            (m.measure s.isReflected q.1 - m.measure s.isReflected p.1))) ∧
        (∀ part, part <:+: ds.zip rs → IsMonotone (part.map Prod.snd) →
          MonotoneOn F {x | Encloses (part.map Prod.fst) x} ∨ AntitoneOn F {x | Encloses (part.map Prod.fst) x}) ∧
        (IsMonotone ((ds.zip rs).map Prod.snd) →
          MonotoneOn F {x | m.Accepts s.isReflected x} ∨ AntitoneOn F {x | m.Accepts s.isReflected x})) ∧
      (s.clamp = true → ∀ w, Scalar.isNaN (s.forward w) = false →
        (∀ p ∈ ds.zip rs, IsBeyond ((ds.zip rs).map Prod.fst) p.1 w → s.map w = .number (finite p.2)) ∧
        ∃ y, s.map w = .number (finite y) ∧ Encloses ((ds.zip rs).map Prod.snd) y) ∧
      (ds.length = rs.length → ∀ w, (s.reversed.withDomain s.domain.reverse).map w = s.map w) := by
  have hexists : ∀ x, ∃ y, m.Accepts s.isReflected x → s.map (finite x) = .number (finite y) := by
    intro x
    by_cases hx : m.Accepts s.isReflected x
    · obtain ⟨-, y, -, hmap, -⟩ := h.exists_point_of_accepts hsteady hx
      exact ⟨y, fun _ => hmap⟩
    · exact ⟨0, fun hx' => absurd hx' hx⟩
  choose F hF using hexists
  refine ⟨fun x hx => (h.encloses_measure (List.Subset.refl _) hx).1, ⟨F, hF, ?_, ?_, ?_, ?_⟩, ?_, ?_⟩
  · intro p hp
    exact Extended.finite.inj (Value.number.inj ((hF p.1 (h.accepts hp)).symm.trans (h.map_stop hsteady hp)))
  · intro p q x hpart hx
    refine h.map_between hsteady hpart hx (hF x (h.encloses_measure hpart.subset ?_).1)
    exact encloses_pair hx
  · exact fun part hpart hslots => h.map_monotoneOn hsteady hF hpart hslots
  · exact fun hslots => h.map_monotone hsteady hF hslots
  · intro hclamp w hw
    exact ⟨fun p hp hbeyond => h.map_beyond hsteady hclamp hp hw hbeyond, h.map_enclosed hsteady hclamp hw⟩
  · exact fun hlengths w => h.map_turned hsteady hlengths w

/-- On a log scale that descends below zero, with slots that do not go in one direction, the stop in the middle is
mapped to its slot, and a number beyond the last stop to the last slot. -/
theorem map_interpolates_negative :
    (ofReals (.log 10) [-1, -10, -100] [0, 5, 2] true).RunsOver (.log 10) [-1, -10, -100] [0, 5, 2] ∧
      (ofReals (.log 10) [-1, -10, -100] [0, 5, 2] true).IsSteadyOver (.log 10) [-1, -10, -100] [0, 5, 2] ∧
      (ofReals (.log 10) [-1, -10, -100] [0, 5, 2] true).map (finite (-10)) = .number (finite 5) ∧
      (ofReals (.log 10) [-1, -10, -100] [0, 5, 2] true).map (finite (-1000)) = .number (finite 2) := by
  have hstops : ([-1, -10, -100] : List ℝ).zip ([0, 5, 2] : List ℝ) = [(-1, 0), (-10, 5), (-100, 2)] := rfl
  have hruns : (ofReals (.log 10) [-1, -10, -100] [0, 5, 2] true).RunsOver (.log 10) [-1, -10, -100] [0, 5, 2] :=
    ofReals_runsOver true ⟨by norm_num, by norm_num⟩ (by decide) fun base _ => .inr (by rw [hstops]; norm_num)
  have hsteady : (ofReals (.log 10) [-1, -10, -100] [0, 5, 2] true).IsSteadyOver (.log 10) [-1, -10, -100] [0, 5, 2] :=
    hruns.steadyOver (.inr (by rw [hstops]; norm_num))
  obtain ⟨haccepts, ⟨F, hmap, hslot, -⟩, hclamp, -⟩ := map_interpolates hruns hsteady
  have hends := hclamp rfl (finite (-1000))
  refine ⟨hruns, hsteady, ?_⟩
  generalize ofReals (.log 10) [-1, -10, -100] [0, 5, 2] true = s at hruns haccepts hmap hends ⊢
  rw [hstops] at haccepts hslot hends
  have hmiddle : OnSide s.isReflected (-10) := haccepts (-10) (encloses_of_mem (by simp))
  have hbeyond : OnSide s.isReflected (-1000) := by
    rw [← hmiddle.decide_lt]
    norm_num [OnSide]
  have hforward := forward_finite hruns.transform hruns.isProper hbeyond
  constructor
  · rw [hmap (-10) hmiddle, hslot (-10, 5) (by simp)]
  · rw [hforward] at hends
    refine (hends rfl).1 (-100, 2) (by simp) (.inl ⟨by norm_num, ?_⟩)
    rw [Extended.finite_le]
    norm_num

end Continuous

end VisualEncoding
