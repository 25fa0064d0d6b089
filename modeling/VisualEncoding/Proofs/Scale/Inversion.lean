import VisualEncoding.Proofs.Scale.Knots

/-!
# Inverting a scale

Mapping and inverting a number both find a point of the broken line of a scale: the one at a measure and the one at a
slot. Where the stops and the slots both go in one direction, no two points of the line share a measure or a slot, so
that each of the two undoes the other (`map_invert`). The scale inverts by searching the slots in ascending order, from
the end if they descend, whatever the stops do; it is a search on the line with measures and slots exchanged.
-/

namespace VisualEncoding

open Extended (finite infinite)

namespace Continuous

variable {knots : List (ℝ × ℝ)} {p q : ℝ × ℝ} {s : Continuous Extended} {m : Transform ℝ} {ds rs : List ℝ}
  {w : Extended} {x y : ℝ}

/-! ## Searching the slots -/

/-- The number that is mapped to a number, by ascending outputs and the stops that belong to them. -/
noncomputable def invertBetween (s : Continuous Extended) (outputs stops : List Extended) (w : Extended) :
    Option Extended :=
  (pieceOf? outputs (s.clampTo outputs w)).bind fun piece => do
    let a ← stops[piece.index]?
    let b ← stops[piece.index + 1]?
    let x := s.backward (a + (b - a) * piece.fraction)
    if Scalar.isFinite x then some x else none

theorem HasKnots.invert_eq (h : s.HasKnots knots) (w : Extended) :
    s.invert w =
      if descends ((knots.map Prod.snd).map finite) then
        s.invertBetween ((knots.reverse.map Prod.snd).map finite) ((knots.reverse.map Prod.fst).map finite) w
      else s.invertBetween ((knots.map Prod.snd).map finite) ((knots.map Prod.fst).map finite) w := by
  obtain ⟨outputs, hrange, houtputs⟩ := h.slots
  unfold invert
  rw [hrange]
  simp only [houtputs, h.stops, List.map_reverse]
  split
  · rfl
  · rfl

/-- Where the slots ascend, the search finds a point of the line. -/
theorem invertBetween_onLine (htransform : s.transform = m.exact) (hm : m.IsProper)
    (hslots : (knots.map Prod.snd).Pairwise (· < ·)) (hlength : 2 ≤ knots.length) (hw : Scalar.isNaN w = false)
    (hfinite : s.clamp = false → Scalar.isFinite w = true) :
    ∃ r t, CountsAs s.clamp (knots.map Prod.snd) w r ∧ OnLine knots t r ∧
      s.invertBetween ((knots.map Prod.snd).map finite) ((knots.map Prod.fst).map finite) w =
        some (finite (m.numberAt s.isReflected t)) := by
  have hknots : ((knots.map Prod.swap).map Prod.fst).Pairwise (· < ·) := by rwa [map_swap_fst]
  have hlength' : 2 ≤ (knots.map Prod.swap).length := by rwa [List.length_map]
  obtain ⟨r, hclamp, hcounts⟩ := clampTo_countsAs hknots hlength' hw hfinite
  obtain ⟨i, p, q, u, hpiece, heq⟩ := pieceOf?_eq hknots hlength' r
  rw [map_swap_fst] at hclamp hcounts heq
  have hline : OnLine (knots.map Prod.swap) r (p.2 + (q.2 - p.2) * u) := ⟨i, p, q, u, hpiece⟩
  have hstop : ∀ {k : ℕ} {a : ℝ × ℝ}, (knots.map Prod.swap)[k]? = some a →
      ((knots.map Prod.fst).map finite)[k]? = some (finite a.2) := by
    intro k a ha
    rw [List.getElem?_map] at ha
    obtain ⟨b, hb, rfl⟩ := Option.map_eq_some_iff.mp ha
    rw [List.getElem?_map, List.getElem?_map, hb]
    rfl
  refine ⟨r, p.2 + (q.2 - p.2) * u, hcounts, ?_, ?_⟩
  · have hback := hline.swap
    rw [List.map_map, Prod.swap_swap_eq, List.map_id] at hback
    exact hback
  · unfold invertBetween
    rw [hclamp, heq]
    simp only [Option.bind_some, hstop hpiece.low, hstop hpiece.high, Option.bind_eq_bind, Extended.finite_sub,
      Extended.finite_mul, Extended.finite_add, backward_finite htransform hm]
    rfl

/-- Inverting a number finds a point of the line where the number counts. -/
theorem RunsOver.exists_inverse (h : s.RunsOver m ds rs) (hslots : IsSteady ((ds.zip rs).map Prod.snd))
    (hw : Scalar.isNaN w = false) (hfinite : s.clamp = false → Scalar.isFinite w = true) :
    ∃ r t, CountsAs s.clamp ((ds.zip rs).map Prod.snd) w r ∧ OnLine (s.measured m (ds.zip rs)) t r ∧
      s.invert w = some (finite (m.numberAt s.isReflected t)) := by
  have htwo : 2 ≤ ((s.measured m (ds.zip rs)).map Prod.swap).length := by
    rw [List.length_map]
    exact h.two_knots
  have hsteady : IsSteady (((s.measured m (ds.zip rs)).map Prod.swap).map Prod.fst) := by
    rwa [map_swap_fst, measured_snd]
  rw [h.hasKnots.invert_eq]
  rcases hsteady.ascending with hknots | hknots
  · have hdescends := descends_of_ascending hknots htwo
    rw [map_swap_fst] at hknots hdescends
    obtain ⟨r, t, hcounts, hline, hinvert⟩ := invertBetween_onLine h.transform h.isProper hknots h.two_knots hw hfinite
    rw [measured_snd] at hcounts
    rw [hdescends, if_neg Bool.false_ne_true]
    exact ⟨r, t, hcounts, hline, hinvert⟩
  · have hdescends := descends_of_reverse hknots htwo
    rw [← List.map_reverse, map_swap_fst] at hknots
    rw [map_swap_fst] at hdescends
    obtain ⟨r, t, hcounts, hline, hinvert⟩ := invertBetween_onLine h.transform h.isProper hknots
      (by rw [List.length_reverse]; exact h.two_knots) hw hfinite
    rw [List.map_reverse, measured_snd] at hcounts
    rw [hdescends, if_pos rfl]
    refine ⟨r, t, hcounts.congr fun a => List.mem_reverse, ?_, hinvert⟩
    rw [← List.reverse_reverse (s.measured m (ds.zip rs))]
    exact hline.reverse

/-! ## Undoing each other -/

namespace RunsOver

/-- Inverting what a number is mapped to gives the number. -/
theorem invert_of_map (h : s.RunsOver m ds rs) (hstops : IsSteady ((ds.zip rs).map Prod.fst))
    (hslots : IsSteady ((ds.zip rs).map Prod.snd)) (hx : m.Accepts s.isReflected x)
    (hinside : s.clamp = true → Encloses ((ds.zip rs).map Prod.fst) x) :
    ∃ y, s.map (finite x) = .number (finite y) ∧ s.invert (finite y) = some (finite x) := by
  have hsteady := h.steadyOver hstops
  have hspan : s.clamp = true → Encloses ((s.measured m (ds.zip rs)).map Prod.fst) (m.measure s.isReflected x) :=
    fun hclamp => (h.encloses_measure (List.Subset.refl _) (hinside hclamp)).2
  obtain ⟨r, y, hcounts, hmap, hline⟩ := h.exists_point_of_accepts hsteady hx
  obtain rfl : r = m.measure s.isReflected x := hcounts.eq_of_encloses hspan
  -- the number is mapped into the ends of the slots, so that it is not moved before it is inverted
  have hspan' : s.clamp = true → Encloses ((ds.zip rs).map Prod.snd) y := by
    intro hclamp
    rw [← measured_snd]
    exact hline.encloses hsteady.measured (hspan hclamp)
  obtain ⟨r', t, hcounts', hline', hinvert⟩ := h.exists_inverse (w := finite y) hslots rfl fun _ => rfl
  obtain rfl : r' = y := hcounts'.eq_of_encloses hspan'
  refine ⟨r', hmap, ?_⟩
  rw [hinvert, hline'.fst_eq (by rwa [measured_snd]) hline, Transform.numberAt_measure h.isProper hx]

/-- Mapping what a number is inverted to gives the number. -/
theorem map_of_invert (h : s.RunsOver m ds rs) (hstops : IsSteady ((ds.zip rs).map Prod.fst))
    (hslots : IsSteady ((ds.zip rs).map Prod.snd)) (hinside : s.clamp = true → Encloses ((ds.zip rs).map Prod.snd) y) :
    ∃ x, s.invert (finite y) = some (finite x) ∧ s.map (finite x) = .number (finite y) := by
  have hsteady := h.steadyOver hstops
  obtain ⟨r, t, hcounts, hline, hinvert⟩ := h.exists_inverse (w := finite y) hslots rfl fun _ => rfl
  obtain rfl : r = y := hcounts.eq_of_encloses hinside
  have hspan : s.clamp = true → Encloses ((s.measured m (ds.zip rs)).map Prod.fst) t :=
    fun hclamp => hline.encloses_fst (by rwa [measured_snd]) (by rw [measured_snd]; exact hinside hclamp)
  obtain ⟨r', y', hcounts', hmap, hline'⟩ := h.exists_point_of_accepts hsteady
    (Transform.accepts_numberAt h.isProper s.isReflected t)
  rw [Transform.measure_numberAt h.isProper] at hcounts'
  obtain rfl : r' = t := hcounts'.eq_of_encloses hspan
  refine ⟨_, hinvert, ?_⟩
  rw [hmap, hline'.eq hsteady.measured hline]

end RunsOver

/-- **Mapping and inverting undo each other.** Let at least two stops of a domain, which are of one sign on a log scale,
go in one direction, and their slots, too, and let there be no rounding. Without clamping, inverting what any number
with a transform is mapped to gives the number, and mapping what any number is inverted to gives the number. With
clamping, that holds of the numbers between the ends of the stops and of those between the ends of the slots. -/
theorem map_invert (h : s.RunsOver m ds rs) (hstops : IsSteady ((ds.zip rs).map Prod.fst))
    (hslots : IsSteady ((ds.zip rs).map Prod.snd)) :
    (s.clamp = false →
      (∀ x, m.Accepts s.isReflected x →
        ∃ y, s.map (finite x) = .number (finite y) ∧ s.invert (finite y) = some (finite x)) ∧
      ∀ y, ∃ x, s.invert (finite y) = some (finite x) ∧ s.map (finite x) = .number (finite y)) ∧
    (s.clamp = true →
      (∀ x, Encloses ((ds.zip rs).map Prod.fst) x →
        ∃ y, s.map (finite x) = .number (finite y) ∧ s.invert (finite y) = some (finite x)) ∧
      ∀ y, Encloses ((ds.zip rs).map Prod.snd) y →
        ∃ x, s.invert (finite y) = some (finite x) ∧ s.map (finite x) = .number (finite y)) := by
  refine ⟨fun hclamp => ⟨fun x hx => ?_, fun y => ?_⟩, fun _ => ⟨fun x hx => ?_, fun y hy => ?_⟩⟩
  · exact h.invert_of_map hstops hslots hx fun htrue => nomatch hclamp.symm.trans htrue
  · exact h.map_of_invert hstops hslots fun htrue => nomatch hclamp.symm.trans htrue
  · exact h.invert_of_map hstops hslots (h.encloses_measure (List.Subset.refl _) hx).1 fun _ => hx
  · exact h.map_of_invert hstops hslots fun _ => hy

/-- On a scale that squares its stops, which descend through zero while the slots ascend, a number beyond the first
stop is mapped and inverted, and one between two slots inverted and mapped. -/
theorem map_invert_fallingSquares :
    (ofReals (.pow 2) [3, 0, -3] [0, 10, 40] false).RunsOver (.pow 2) [3, 0, -3] [0, 10, 40] ∧
      IsSteady [3, 0, -3] ∧ IsSteady [0, 10, 40] ∧
      (∃ y, (ofReals (.pow 2) [3, 0, -3] [0, 10, 40] false).map (finite 5) = .number (finite y) ∧
        (ofReals (.pow 2) [3, 0, -3] [0, 10, 40] false).invert (finite y) = some (finite 5)) ∧
      ∃ x, (ofReals (.pow 2) [3, 0, -3] [0, 10, 40] false).invert (finite 25) = some (finite x) ∧
        (ofReals (.pow 2) [3, 0, -3] [0, 10, 40] false).map (finite x) = .number (finite 25) := by
  have hruns : (ofReals (.pow 2) [3, 0, -3] [0, 10, 40] false).RunsOver (.pow 2) [3, 0, -3] [0, 10, 40] :=
    ofReals_runsOver false two_pos (by decide) nofun
  have hstops : IsSteady [3, 0, -3] := .inr (by norm_num)
  have hslots : IsSteady [0, 10, 40] := .inl (by norm_num)
  obtain ⟨hopen, -⟩ := map_invert hruns hstops hslots
  obtain ⟨hmap, hinvert⟩ := hopen rfl
  exact ⟨hruns, hstops, hslots, hmap 5 trivial, hinvert 25⟩

end Continuous

end VisualEncoding
