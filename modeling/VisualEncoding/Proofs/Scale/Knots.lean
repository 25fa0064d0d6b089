import VisualEncoding.Proofs.Scale.Clamping
import VisualEncoding.Proofs.Scale.Transforms

/-!
# Scales over numbers are broken lines

In exact arithmetic a continuous scale over numbers is the broken line through its stops, measured by the transform,
and their slots (`RunsOver.exists_point`). There may be any number of stops in either direction; what the domain or
the range has more of than the other does not matter.

The scale searches ascending stops, so it takes a descending domain from its end, and the slots with it. A broken line
has no direction, so this makes no difference (`HasKnots.mapTransformed`).
-/

namespace VisualEncoding

open Extended (finite infinite)

variable {knots part : List (ℝ × ℝ)} {i j : ℕ} {p q : ℝ × ℝ}

namespace Continuous

variable {s s' : Continuous Extended} {m : Transform ℝ} {ds rs : List ℝ} {w : Extended} {x y : ℝ}

/-! ## Which way stops go -/

theorem descends_eq (hp : knots[0]? = some p) (hq : knots[knots.length - 1]? = some q) :
    descends ((knots.map Prod.fst).map finite) = decide (q.1 < p.1) := by
  unfold descends
  rw [List.head?_eq_getElem?, List.getLast?_eq_getElem?]
  simp only [List.length_map, List.getElem?_map, hp, hq, Option.map_some, Extended.finite_lt]

/-- Stops that ascend do not descend, -/
theorem descends_of_ascending (hknots : (knots.map Prod.fst).Pairwise (· < ·)) (hlength : 2 ≤ knots.length) :
    descends ((knots.map Prod.fst).map finite) = false := by
  have hfirst : knots[0]? = some knots[0] := List.getElem?_eq_getElem (by omega)
  have hlast : knots[knots.length - 1]? = some knots[knots.length - 1] := List.getElem?_eq_getElem (by omega)
  rw [descends_eq hfirst hlast]
  exact decide_eq_false (fst_lt_of_lt hknots hfirst hlast (by omega)).not_gt

/-- and those that ascend from their end do. -/
theorem descends_of_reverse (hknots : (knots.reverse.map Prod.fst).Pairwise (· < ·)) (hlength : 2 ≤ knots.length) :
    descends ((knots.map Prod.fst).map finite) = true := by
  have hfirst : knots[0]? = some knots[0] := List.getElem?_eq_getElem (by omega)
  have hlast : knots[knots.length - 1]? = some knots[knots.length - 1] := List.getElem?_eq_getElem (by omega)
  have hfirst' : knots.reverse[knots.length - 1]? = some knots[0] := by
    rw [List.getElem?_reverse (by omega), Nat.sub_self, hfirst]
  have hlast' : knots.reverse[0]? = some knots[knots.length - 1] := by
    rw [List.getElem?_reverse (by omega), Nat.sub_zero, hlast]
  rw [descends_eq hfirst hlast]
  exact decide_eq_true (fst_lt_of_lt hknots hlast' hfirst' (by omega))

/-! ## Knots -/

/-- The stops that have a counterpart and their slots, all of them real numbers. -/
structure HasKnots (s : Continuous Extended) (knots : List (ℝ × ℝ)) : Prop where
  stops : s.domainStops = (knots.map Prod.fst).map finite
  slots : ∃ outputs, s.range = .numbers outputs ∧ outputs.take s.stopCount = (knots.map Prod.snd).map finite
  count : s.stopCount = knots.length
  round : s.round = false

theorem HasKnots.valueBetween (h : s.HasKnots knots) (hp : knots[i]? = some p) (hq : knots[j]? = some q) (u : ℝ) :
    s.valueBetween i j (finite u) = .number (finite (p.2 + (q.2 - p.2) * u)) := by
  obtain ⟨outputs, hrange, houtputs⟩ := h.slots
  have hslot : ∀ {k : ℕ} {a : ℝ × ℝ}, knots[k]? = some a → outputs[k]? = some (finite a.2) := by
    intro k a ha
    have hk := (List.getElem?_eq_some_iff.mp ha).1
    rw [← List.getElem?_take_of_lt (show k < s.stopCount by rw [h.count]; exact hk), houtputs, List.getElem?_map,
      List.getElem?_map, ha]
    rfl
  unfold Continuous.valueBetween
  rw [hrange, h.round]
  simp only [hslot hp, hslot hq, Extended.finite_sub, Extended.finite_mul, Extended.finite_add]
  rfl

/-- A number that has a transform is mapped to the point of the broken line where it counts. -/
theorem HasKnots.mapTransformed (h : s.HasKnots knots) (hsteady : IsSteady (knots.map Prod.fst))
    (hlength : 2 ≤ knots.length) (hw : Scalar.isNaN w = false)
    (hfinite : s.clamp = false → Scalar.isFinite w = true) :
    ∃ r y, CountsAs s.clamp (knots.map Prod.fst) w r ∧ s.mapTransformed w = .number (finite y) ∧ OnLine knots r y := by
  have hall : ((knots.map Prod.fst).map finite).any (fun d => !Scalar.isFinite d) = false := by
    rw [List.any_eq_false]
    intro d hd
    obtain ⟨r, -, rfl⟩ := List.mem_map.mp hd
    exact Bool.false_ne_true
  unfold Continuous.mapTransformed
  simp only [h.stops, hall, hw, h.count, Bool.or_self, if_neg Bool.false_ne_true]
  rcases hsteady.ascending with hknots | hknots
  · obtain ⟨r, hclamp, hcounts⟩ := clampTo_countsAs hknots hlength hw hfinite
    obtain ⟨i, p, q, u, hpiece, heq⟩ := pieceOf?_eq hknots hlength r
    refine ⟨r, p.2 + (q.2 - p.2) * u, hcounts, ?_, i, p, q, u, hpiece⟩
    rw [descends_of_ascending hknots hlength]
    simp only [if_neg Bool.false_ne_true, hclamp, heq]
    exact h.valueBetween hpiece.low hpiece.high u
  · have hlength' : 2 ≤ knots.reverse.length := by rwa [List.length_reverse]
    obtain ⟨r, hclamp, hcounts⟩ := clampTo_countsAs hknots hlength' hw hfinite
    obtain ⟨i, p, q, u, hpiece, heq⟩ := pieceOf?_eq hknots hlength' r
    have hi := hpiece.length
    rw [List.length_reverse] at hi
    refine ⟨r, p.2 + (q.2 - p.2) * u, hcounts.congr fun a => ?_, ?_, ?_⟩
    · rw [List.map_reverse, List.mem_reverse]
    · rw [descends_of_reverse hknots hlength]
      simp only [if_true, ← List.map_reverse, hclamp, heq]
      -- the slots are counted from the end, as the stops are
      have hp : knots[knots.length - 1 - i]? = some p := by
        rw [← List.getElem?_reverse (by omega), hpiece.low]
      have hq : knots[knots.length - 1 - (i + 1)]? = some q := by
        rw [← List.getElem?_reverse (by omega), hpiece.high]
      exact h.valueBetween hp hq u
    · have hline : OnLine knots.reverse r (p.2 + (q.2 - p.2) * u) := ⟨i, p, q, u, hpiece⟩
      rw [← List.reverse_reverse knots]
      exact hline.reverse

/-! ## Real stops and slots -/

/-- A scale that maps real stops of a domain to real slots of a range without rounding. At least two stops have a
slot, and on a log scale these are of one sign. -/
structure RunsOver (s : Continuous Extended) (m : Transform ℝ) (ds rs : List ℝ) : Prop where
  transform : s.transform = m.exact
  isProper : m.IsProper
  domain : s.domain = ds.map finite
  range : s.range = .numbers (rs.map finite)
  round : s.round = false
  two : 2 ≤ (ds.zip rs).length
  one_sign : ∀ base, m = .log base → (∀ p ∈ ds.zip rs, 0 < p.1) ∨ ∀ p ∈ ds.zip rs, p.1 < 0

/-- A scale over real stops and slots. -/
def ofReals (m : Transform ℝ) (ds rs : List ℝ) (clamp : Bool) : Continuous Extended :=
  { family := .linear
    transform := m.exact
    domain := ds.map finite
    range := .numbers (rs.map finite)
    clamp }

theorem ofReals_runsOver (clamp : Bool) (hm : m.IsProper) (htwo : 2 ≤ (ds.zip rs).length)
    (hsign : ∀ base, m = .log base → (∀ p ∈ ds.zip rs, 0 < p.1) ∨ ∀ p ∈ ds.zip rs, p.1 < 0) :
    (ofReals m ds rs clamp).RunsOver m ds rs := ⟨rfl, hm, rfl, rfl, rfl, htwo, hsign⟩

/-- The stops with a slot, measured, and the slots. -/
noncomputable def measured (s : Continuous Extended) (m : Transform ℝ) (pairs : List (ℝ × ℝ)) : List (ℝ × ℝ) :=
  pairs.map fun p => (m.measure s.isReflected p.1, p.2)

/-- The measures of the stops that have a slot go in one direction. -/
def IsSteadyOver (s : Continuous Extended) (m : Transform ℝ) (ds rs : List ℝ) : Prop :=
  IsSteady ((ds.zip rs).map fun p => m.measure s.isReflected p.1)

theorem length_measured (s : Continuous Extended) (m : Transform ℝ) (pairs : List (ℝ × ℝ)) :
    (s.measured m pairs).length = pairs.length := List.length_map _

theorem measured_fst (s : Continuous Extended) (m : Transform ℝ) (pairs : List (ℝ × ℝ)) :
    (s.measured m pairs).map Prod.fst = pairs.map fun p => m.measure s.isReflected p.1 := by
  unfold measured
  rw [List.map_map]
  rfl

theorem IsSteadyOver.measured (h : s.IsSteadyOver m ds rs) : IsSteady ((s.measured m (ds.zip rs)).map Prod.fst) := by
  rw [measured_fst]
  exact h

theorem measured_snd (s : Continuous Extended) (m : Transform ℝ) (pairs : List (ℝ × ℝ)) :
    (s.measured m pairs).map Prod.snd = pairs.map Prod.snd := by
  unfold measured
  rw [List.map_map]
  rfl

theorem measure_mem {pairs : List (ℝ × ℝ)} (s : Continuous Extended) (m : Transform ℝ) (hp : p ∈ pairs) :
    m.measure s.isReflected p.1 ∈ (s.measured m pairs).map Prod.fst := by
  rw [measured_fst]
  exact List.mem_map_of_mem hp

namespace RunsOver

/-- The stops that have a slot have a transform. -/
theorem accepts (h : s.RunsOver m ds rs) (hp : p ∈ ds.zip rs) : m.Accepts s.isReflected p.1 := by
  have hsign := h.one_sign
  have hdomain := h.domain
  cases m with
  | identity | pow => trivial
  | log base =>
    -- the first stop, which has a slot, tells on which side of zero the scale measures
    match ds, rs with
    | [], _ | _ :: _, [] => nomatch hp
    | d :: ds, r :: rs =>
      have hfirst : (d, r) ∈ (d :: ds).zip (r :: rs) := List.mem_cons_self
      have hreflected : s.isReflected = decide (d < 0) := by
        unfold isReflected
        rw [hdomain]
        show decide (finite d < 0) = _
        rw [Extended.zero_eq]
        exact decide_eq_decide.mpr Extended.finite_lt
      show OnSide s.isReflected p.1
      rw [hreflected]
      rcases hsign base rfl with hpos | hneg
      · exact (onSide_of_sign (.inl ⟨hpos _ hfirst, hpos p hp⟩)).2
      · exact (onSide_of_sign (.inr ⟨hneg _ hfirst, hneg p hp⟩)).2

/-- Stops that go in one direction have measures that do. -/
theorem steadyOver (h : s.RunsOver m ds rs) (hsteady : IsSteady ((ds.zip rs).map Prod.fst)) :
    s.IsSteadyOver m ds rs := by
  unfold IsSteadyOver
  unfold IsSteady at hsteady ⊢
  simp only [List.pairwise_map] at hsteady ⊢
  rcases Transform.measure_steady h.isProper s.isReflected with hmono | hanti
  · refine hsteady.imp (List.Pairwise.imp_of_mem fun ha hb hlt => ?_)
      (List.Pairwise.imp_of_mem fun ha hb hlt => ?_)
    · exact hmono (h.accepts ha) (h.accepts hb) hlt
    · exact hmono (h.accepts hb) (h.accepts ha) hlt
  · refine hsteady.symm.imp (List.Pairwise.imp_of_mem fun ha hb hlt => ?_)
      (List.Pairwise.imp_of_mem fun ha hb hlt => ?_)
    · exact hanti (h.accepts hb) (h.accepts ha) hlt
    · exact hanti (h.accepts ha) (h.accepts hb) hlt

theorem stopCount (h : s.RunsOver m ds rs) : s.stopCount = (ds.zip rs).length := by
  unfold Continuous.stopCount
  rw [h.domain, h.range, List.length_map, List.length_zip]
  exact congrArg (min _) (List.length_map _)

theorem hasKnots (h : s.RunsOver m ds rs) : s.HasKnots (s.measured m (ds.zip rs)) where
  stops := by
    have hfst : ds.take s.stopCount = (ds.zip rs).map Prod.fst := by
      rw [h.stopCount, List.length_zip, List.zip_eq_zip_take_min, List.map_fst_zip]
      simp
    unfold domainStops
    rw [h.domain, ← List.map_take, hfst, measured_fst, List.map_map, List.map_map, List.map_map]
    refine List.map_congr_left fun p hp => ?_
    exact forward_finite h.transform h.isProper (h.accepts hp)
  slots := by
    refine ⟨_, h.range, ?_⟩
    have hsnd : rs.take s.stopCount = (ds.zip rs).map Prod.snd := by
      rw [h.stopCount, List.length_zip, List.zip_eq_zip_take_min, List.map_snd_zip]
      simp
    rw [← List.map_take, hsnd, measured_snd]
  count := by rw [h.stopCount, length_measured]
  round := h.round

theorem two_knots (h : s.RunsOver m ds rs) : 2 ≤ (s.measured m (ds.zip rs)).length := by
  rw [length_measured]
  exact h.two

theorem map_eq (h : s.RunsOver m ds rs) (w : Extended) : s.map w = s.mapTransformed (s.forward w) := by
  have htwo := h.two
  unfold Continuous.map
  split
  next hcount => rw [h.stopCount] at hcount; omega
  next hcount => rw [h.stopCount] at hcount; omega
  next => rfl

/-! ## The points of the line -/

/-- A number with a transform is mapped to a point of the line through the measured stops. -/
theorem exists_point (h : s.RunsOver m ds rs) (hsteady : s.IsSteadyOver m ds rs)
    (hw : Scalar.isNaN (s.forward w) = false) (hfinite : s.clamp = false → Scalar.isFinite (s.forward w) = true) :
    ∃ r y, CountsAs s.clamp ((s.measured m (ds.zip rs)).map Prod.fst) (s.forward w) r ∧
      s.map w = .number (finite y) ∧ OnLine (s.measured m (ds.zip rs)) r y := by
  rw [h.map_eq]
  exact h.hasKnots.mapTransformed hsteady.measured h.two_knots hw hfinite

theorem exists_point_of_accepts (h : s.RunsOver m ds rs) (hsteady : s.IsSteadyOver m ds rs)
    (hx : m.Accepts s.isReflected x) :
    ∃ r y, CountsAs s.clamp ((s.measured m (ds.zip rs)).map Prod.fst) (finite (m.measure s.isReflected x)) r ∧
      s.map (finite x) = .number (finite y) ∧ OnLine (s.measured m (ds.zip rs)) r y := by
  have hforward := forward_finite h.transform h.isProper hx
  have hpoint := h.exists_point hsteady (w := finite x)
  rw [hforward] at hpoint
  exact hpoint rfl fun _ => rfl

/-- What lies between stops has a transform, between the transforms of stops. -/
theorem encloses_measure (h : s.RunsOver m ds rs) (hpart : part ⊆ ds.zip rs) (hx : Encloses (part.map Prod.fst) x) :
    m.Accepts s.isReflected x ∧ Encloses ((s.measured m part).map Prod.fst) (m.measure s.isReflected x) := by
  obtain ⟨⟨_, hamem, hax⟩, _, hbmem, hxb⟩ := hx
  obtain ⟨a, ha, rfl⟩ := List.mem_map.mp hamem
  obtain ⟨b, hb, rfl⟩ := List.mem_map.mp hbmem
  have hfrom := h.accepts (hpart ha)
  have hto := h.accepts (hpart hb)
  have hbetween := hfrom.of_between hto hax hxb
  refine ⟨hbetween, ?_⟩
  rcases Transform.measure_steady h.isProper s.isReflected with hmono | hanti
  · have hlow := hmono.monotoneOn hfrom hbetween hax
    have hhigh := hmono.monotoneOn hbetween hto hxb
    exact ⟨⟨_, measure_mem s m ha, hlow⟩, _, measure_mem s m hb, hhigh⟩
  · have hlow := hanti.antitoneOn hbetween hto hxb
    have hhigh := hanti.antitoneOn hfrom hbetween hax
    exact ⟨⟨_, measure_mem s m hb, hlow⟩, _, measure_mem s m ha, hhigh⟩

end RunsOver

end Continuous

end VisualEncoding
