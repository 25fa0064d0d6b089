import VisualEncoding.Proofs.Ticks.Outward
import VisualEncoding.Scale.Continuous

/-!
# Widened domains

Nicing and taking in zero write new first and last stops over the old ones, in either direction and whatever the stops
between them. Of ends that differ each is moved away from the other one, so the stops stay in strict order
(`IsWidened`). One operation widens a domain, and what widens a widened domain widens the domain, so any sequence of
operations does:

> `widenAll_widens`: after any sequence the stops are in the same strict order as before, those between the ends are
> the same, the span of the domain takes in the span after any earlier part of the sequence, and it takes in zero once
> zero has been taken in.

That is in exact arithmetic, on scales that measure numbers or powers of numbers. The ends may be infinite.
-/

namespace VisualEncoding

/-- An operation that moves the ends of a domain. -/
inductive Widening where
  | nice (count : Nat)
  | zero

/-! ## The ends -/

namespace Widening

/-- The ends of a domain of numbers after an operation. -/
def ends {α : Type} [Scalar α] : Widening → α → α → α × α
  | nice count, a, b => Ticks.niceLinear a b count
  | zero, a, b => includeZero a b

variable {a b : Extended}

theorem ends_swap (h : a < b) (w : Widening) : w.ends b a = (w.ends a b).swap := by
  cases w with
  | nice count => exact Ticks.niceLinear_swap h count
  | zero => exact includeZero_swap h

theorem niceLinear_outward (h : a < b) (count : Nat) :
    (Ticks.niceLinear a b count).1 ≤ a ∧ b ≤ (Ticks.niceLinear a b count).2 := by
  by_cases hfinite : Scalar.isFinite a = true ∧ Scalar.isFinite b = true
  · obtain ⟨x, rfl⟩ := Extended.isFinite_iff.mp hfinite.1
    obtain ⟨y, rfl⟩ := Extended.isFinite_iff.mp hfinite.2
    obtain ⟨x', y', hnice, hwidens⟩ := Ticks.niceLinear_widens x y count
    rw [hnice, Extended.finite_le, Extended.finite_le]
    rcases hwidens with ⟨-, hx, hy⟩ | ⟨hle, -, -⟩
    · exact ⟨hx, hy⟩
    · exact absurd hle (Extended.finite_lt.mp h).not_ge
  · obtain ⟨ha, hb⟩ := Extended.isNaN_of_lt h
    rw [Ticks.niceLinear_of_not_finite hfinite]
    exact ⟨Extended.le_refl ha, Extended.le_refl hb⟩

theorem includeZero_of_lt (h : a < b) : includeZero a b = (Scalar.least a 0, Scalar.greatest b 0) :=
  if_pos (Extended.le_of_lt h)

/-- Each of two ends stays or is moved away from the other one. -/
theorem ends_outward (h : a < b) (w : Widening) : (w.ends a b).1 ≤ a ∧ b ≤ (w.ends a b).2 := by
  cases w with
  | nice count => exact niceLinear_outward h count
  | zero =>
    obtain ⟨ha, hb⟩ := Extended.isNaN_of_lt h
    show (includeZero a b).1 ≤ a ∧ b ≤ (includeZero a b).2
    rw [includeZero_of_lt h]
    exact ⟨(Extended.least_le ha rfl).1, (Extended.le_greatest hb rfl).1⟩

theorem zero_ends (h : a < b) : (zero.ends a b).1 ≤ 0 ∧ 0 ≤ (zero.ends a b).2 := by
  obtain ⟨ha, hb⟩ := Extended.isNaN_of_lt h
  show (includeZero a b).1 ≤ 0 ∧ 0 ≤ (includeZero a b).2
  rw [includeZero_of_lt h]
  exact ⟨(Extended.least_le ha rfl).2, (Extended.le_greatest hb rfl).2⟩

end Widening

/-! ## The stops -/

/-- A number lies between the least and the greatest stop. -/
def Spans (ds : List Extended) (x : Extended) : Prop := (∃ a ∈ ds, a ≤ x) ∧ ∃ b ∈ ds, x ≤ b

/-- Stops ascend or descend, none like its neighbour. -/
def IsStrict (ds : List Extended) : Prop := ds.Pairwise (· < ·) ∨ ds.Pairwise (· > ·)

/-- What a domain is after its ends were moved outward. -/
structure IsWidened (ds ds' : List Extended) : Prop where
  ascending : ds.Pairwise (· < ·) → ds'.Pairwise (· < ·)
  descending : ds.Pairwise (· > ·) → ds'.Pairwise (· > ·)
  interior : ds'.tail.dropLast = ds.tail.dropLast
  length : ds'.length = ds.length
  spans : ∀ x, Spans ds x → Spans ds' x

namespace IsWidened

variable {ds ds' ds'' : List Extended}

theorem refl (ds : List Extended) : IsWidened ds ds := ⟨id, id, rfl, rfl, fun _ => id⟩

theorem trans (h : IsWidened ds ds') (h' : IsWidened ds' ds'') : IsWidened ds ds'' where
  ascending := h'.ascending ∘ h.ascending
  descending := h'.descending ∘ h.descending
  interior := h'.interior.trans h.interior
  length := h'.length.trans h.length
  spans x := h'.spans x ∘ h.spans x

theorem isStrict (h : IsWidened ds ds') (hstrict : IsStrict ds) : IsStrict ds' :=
  hstrict.imp h.ascending h.descending

end IsWidened

section Ends

variable {a b a' b' x : Extended} {middle : List Extended}

theorem exists_ends {ds : List Extended} (h : 2 ≤ ds.length) : ∃ a middle b, ds = a :: (middle ++ [b]) := by
  match ds with
  | a :: c :: rest =>
    have hne : c :: rest ≠ [] := List.cons_ne_nil _ _
    exact ⟨a, (c :: rest).dropLast, (c :: rest).getLast hne, by rw [List.dropLast_append_getLast]⟩
  | [] | [_] => simp at h

theorem mem_ends : x ∈ a :: (middle ++ [b]) ↔ x = a ∨ x ∈ middle ∨ x = b := by
  rw [List.mem_cons, List.mem_append, List.mem_singleton]

/-- An order of the stops stays when ends in it are replaced by ones further out. -/
theorem pairwise_ends {r : Extended → Extended → Prop} (h : (a :: (middle ++ [b])).Pairwise r)
    (ha : ∀ x, r a x → r a' x) (hb : ∀ x, r x b → r x b') : (a' :: (middle ++ [b'])).Pairwise r := by
  rw [List.pairwise_cons, List.pairwise_append] at h
  obtain ⟨hstart, hmiddle, -, hstop⟩ := h
  have hstop' : ∀ x ∈ middle, r x b' := fun x hx => hb x (hstop x hx b List.mem_cons_self)
  rw [List.pairwise_cons, List.pairwise_append]
  refine ⟨?_, hmiddle, List.pairwise_singleton _ _, ?_⟩
  · intro x hx
    rcases List.mem_append.mp hx with hx | hx
    · exact ha x (hstart x (List.mem_append_left _ hx))
    · rw [List.mem_singleton.mp hx]
      exact ha b' (hb a (hstart b (List.mem_append_right _ List.mem_cons_self)))
  · intro x hx y hy
    rw [List.mem_singleton.mp hy]
    exact hstop' x hx

/-- The span grows if some end is below both old ones and some end is above both. -/
theorem Spans.of_ends (h : Spans (a :: (middle ++ [b])) x) (hlow : ∃ c ∈ [a', b'], c ≤ a ∧ c ≤ b)
    (hhigh : ∃ c ∈ [a', b'], a ≤ c ∧ b ≤ c) : Spans (a' :: (middle ++ [b'])) x := by
  have hend : ∀ {c}, c ∈ [a', b'] → c ∈ a' :: (middle ++ [b']) := by
    intro c hc
    rw [List.mem_cons, List.mem_singleton] at hc
    exact mem_ends.mpr (hc.imp_right Or.inr)
  obtain ⟨⟨c, hc, hcx⟩, d, hd, hxd⟩ := h
  obtain ⟨low, hlow, hlowa, hlowb⟩ := hlow
  obtain ⟨high, hhigh, hhigha, hhighb⟩ := hhigh
  constructor
  · rcases mem_ends.mp hc with rfl | hc | rfl
    · exact ⟨low, hend hlow, Extended.le_trans hlowa hcx⟩
    · exact ⟨c, mem_ends.mpr (.inr (.inl hc)), hcx⟩
    · exact ⟨low, hend hlow, Extended.le_trans hlowb hcx⟩
  · rcases mem_ends.mp hd with rfl | hd | rfl
    · exact ⟨high, hend hhigh, Extended.le_trans hxd hhigha⟩
    · exact ⟨d, mem_ends.mpr (.inr (.inl hd)), hxd⟩
    · exact ⟨high, hend hhigh, Extended.le_trans hxd hhighb⟩

theorem interior_ends (a b a' b' : Extended) (middle : List Extended) :
    (a' :: (middle ++ [b'])).tail.dropLast = (a :: (middle ++ [b])).tail.dropLast := by
  rw [List.tail_cons, List.tail_cons, List.dropLast_concat, List.dropLast_concat]

theorem length_ends (a b a' b' : Extended) (middle : List Extended) :
    (a' :: (middle ++ [b'])).length = (a :: (middle ++ [b])).length := by
  simp only [List.length_cons, List.length_append]

/-- Ends further out widen ascending stops. -/
theorem isWidened_of_lt (h : a < b) (ha : a' ≤ a) (hb : b ≤ b') :
    IsWidened (a :: (middle ++ [b])) (a' :: (middle ++ [b'])) where
  ascending hds := pairwise_ends hds (fun _ hlt => Extended.lt_of_le_of_lt ha hlt)
    fun _ hlt => Extended.lt_of_lt_of_le hlt hb
  descending hds := absurd ((List.pairwise_cons.mp hds).1 b (List.mem_append_right _ List.mem_cons_self))
    (Extended.lt_asymm h)
  interior := interior_ends a b a' b' middle
  length := length_ends a b a' b' middle
  spans _ hx := hx.of_ends
    ⟨a', List.mem_cons_self, ha, Extended.le_trans ha (Extended.le_of_lt h)⟩
    ⟨b', List.mem_cons_of_mem _ List.mem_cons_self, Extended.le_trans (Extended.le_of_lt h) hb, hb⟩

/-- Ends further out widen descending stops. -/
theorem isWidened_of_gt (h : b < a) (ha : a ≤ a') (hb : b' ≤ b) :
    IsWidened (a :: (middle ++ [b])) (a' :: (middle ++ [b'])) where
  ascending hds := absurd ((List.pairwise_cons.mp hds).1 b (List.mem_append_right _ List.mem_cons_self))
    (Extended.lt_asymm h)
  descending hds := pairwise_ends hds (fun _ hlt => Extended.lt_of_lt_of_le hlt ha)
    fun _ hlt => Extended.lt_of_le_of_lt hb hlt
  interior := interior_ends a b a' b' middle
  length := length_ends a b a' b' middle
  spans _ hx := hx.of_ends
    ⟨b', List.mem_cons_of_mem _ List.mem_cons_self, Extended.le_trans hb (Extended.le_of_lt h), hb⟩
    ⟨a', List.mem_cons_self, ha, Extended.le_trans (Extended.le_of_lt h) ha⟩

theorem IsStrict.lt_or_gt (h : IsStrict (a :: (middle ++ [b]))) : a < b ∨ b < a := by
  have hstop : b ∈ middle ++ [b] := List.mem_append_right _ List.mem_cons_self
  exact h.imp (fun hds => (List.pairwise_cons.mp hds).1 b hstop) fun hds => (List.pairwise_cons.mp hds).1 b hstop

/-- An operation widens stops in strict order. -/
theorem Widening.isWidened (h : IsStrict (a :: (middle ++ [b]))) (w : Widening) :
    IsWidened (a :: (middle ++ [b])) ((w.ends a b).1 :: (middle ++ [(w.ends a b).2])) := by
  rcases h.lt_or_gt with hlt | hgt
  · obtain ⟨ha, hb⟩ := w.ends_outward hlt
    exact isWidened_of_lt hlt ha hb
  · -- descending ends are moved like the ascending ones that they are in the other order
    obtain ⟨hb, ha⟩ := w.ends_outward hgt
    rw [w.ends_swap hgt]
    exact isWidened_of_gt hgt ha hb

/-- Taking in zero takes in zero. -/
theorem Widening.spans_zero (h : IsStrict (a :: (middle ++ [b]))) :
    Spans ((zero.ends a b).1 :: (middle ++ [(zero.ends a b).2])) 0 := by
  have hspans : ∀ {c d : Extended}, c ≤ 0 → 0 ≤ d → ∀ {ds : List Extended}, c ∈ ds → d ∈ ds → Spans ds 0 :=
    fun hc hd _ hcs hds => ⟨⟨_, hcs, hc⟩, _, hds, hd⟩
  rcases h.lt_or_gt with hlt | hgt
  · obtain ⟨ha, hb⟩ := zero_ends hlt
    exact hspans ha hb (mem_ends.mpr (.inl rfl)) (mem_ends.mpr (.inr (.inr rfl)))
  · obtain ⟨hb, ha⟩ := zero_ends hgt
    rw [zero.ends_swap hgt]
    exact hspans hb ha (mem_ends.mpr (.inr (.inr rfl))) (mem_ends.mpr (.inl rfl))

end Ends

/-! ## Scales -/

namespace Continuous

section Definitions

variable {α : Type} {s : Continuous α} {a b : α} {middle : List α}

theorem getLast_ends (c b : α) (middle : List α) :
    (c :: (middle ++ [b])).getLast (List.cons_ne_nil _ _) = b :=
  List.getLast_concat (l := c :: middle)

theorem dropLast_ends (c b : α) (middle : List α) : (c :: (middle ++ [b])).dropLast = c :: middle := by
  rw [← List.cons_append, List.dropLast_concat]

theorem moveEnds_eq (hdomain : s.domain = a :: (middle ++ [b]))
    (move : α → α → Except Calendar.IntervalFault (α × α)) :
    s.moveEnds move = (move a b).map fun ends => s.withDomain (ends.1 :: (middle ++ [ends.2])) := by
  unfold moveEnds
  rw [hdomain]
  cases middle with
  | nil =>
    dsimp only [List.nil_append, List.getLast_singleton, List.dropLast_singleton]
    cases move a b <;> rfl
  | cons c middle =>
    dsimp only [List.cons_append]
    rw [getLast_ends, dropLast_ends]
    cases move a b <;> rfl

variable [Scalar α]

/-- A scale after an operation on its domain. -/
def widen (s : Continuous α) : Widening → Except Calendar.IntervalFault (Continuous α)
  | .nice count => s.nice count
  | .zero => .ok s.withZero

/-- A scale after a sequence of operations on its domain. -/
def widenAll (s : Continuous α) (steps : List Widening) : Except Calendar.IntervalFault (Continuous α) :=
  steps.foldlM widen s

/-- A scale that measures numbers or powers of numbers. -/
def IsNumeric (s : Continuous α) : Prop := s.family.isTime = false ∧ ∀ base, s.transform ≠ .log base

theorem zeroDomain_eq (a b : α) (middle : List α) :
    zeroDomain (a :: (middle ++ [b])) = (includeZero a b).1 :: (middle ++ [(includeZero a b).2]) := by
  cases middle with
  | nil => rfl
  | cons c middle =>
    dsimp only [List.cons_append, zeroDomain]
    rw [getLast_ends, dropLast_ends]
    rfl

/-- An operation moves the ends and nothing else. -/
theorem widen_eq (hnumeric : s.IsNumeric) (hdomain : s.domain = a :: (middle ++ [b])) (w : Widening) :
    s.widen w = .ok (s.withDomain ((w.ends a b).1 :: (middle ++ [(w.ends a b).2]))) := by
  cases w with
  | nice count =>
    show s.nice count = _
    unfold nice
    rw [moveEnds_eq hdomain, if_neg (Bool.eq_false_iff.mp hnumeric.1)]
    cases htransform : s.transform with
    | log base => exact absurd htransform (hnumeric.2 base)
    | identity | pow => rfl
  | zero =>
    show Except.ok (s.withDomain (zeroDomain s.domain)) = _
    rw [hdomain, zeroDomain_eq]
    rfl

end Definitions

variable {s : Continuous Extended}

/-- One operation widens the domain. -/
theorem exists_widen (hnumeric : s.IsNumeric) (hlength : 2 ≤ s.domain.length) (hstrict : IsStrict s.domain)
    (w : Widening) :
    ∃ ds, s.widen w = .ok (s.withDomain ds) ∧ IsWidened s.domain ds ∧ (w = .zero → Spans ds 0) := by
  obtain ⟨a, middle, b, hdomain⟩ := exists_ends hlength
  rw [hdomain] at hstrict ⊢
  refine ⟨_, widen_eq hnumeric hdomain w, w.isWidened hstrict, ?_⟩
  rintro rfl
  exact Widening.spans_zero hstrict

/-- Any sequence of operations widens the domain. -/
theorem exists_widenAll (hnumeric : s.IsNumeric) (hlength : 2 ≤ s.domain.length) (hstrict : IsStrict s.domain)
    (steps : List Widening) :
    ∃ ds, s.widenAll steps = .ok (s.withDomain ds) ∧ IsWidened s.domain ds ∧
      (.zero ∈ steps → Spans ds 0) := by
  -- by the operations, from the first one on; the stops that it leaves are in strict order for the others
  induction steps generalizing s with
  | nil => exact ⟨s.domain, rfl, IsWidened.refl _, fun h => nomatch h⟩
  | cons w steps ih =>
    obtain ⟨ds, hwiden, hwidened, hzero⟩ := exists_widen hnumeric hlength hstrict w
    have hlength' : 2 ≤ ds.length := hwidened.length.symm ▸ hlength
    obtain ⟨ds', hall, hwidened', hzero'⟩ :=
      ih (s := s.withDomain ds) hnumeric hlength' (hwidened.isStrict hstrict)
    refine ⟨ds', ?_, hwidened.trans hwidened', ?_⟩
    · show (s.widen w >>= fun s' => s'.widenAll steps) = _
      rw [hwiden]
      exact hall
    · intro hmem
      rcases List.mem_cons.mp hmem with rfl | hmem
      · exact hwidened'.spans 0 (hzero rfl)
      · exact hzero' hmem

/-- Whatever sequence of nicing and taking in zero a domain goes through, it stays in the strict order in which it was,
with the same stops between its ends, spans all that it spanned before, and from zero on it spans zero. -/
theorem widenAll_widens (hnumeric : s.IsNumeric) (hlength : 2 ≤ s.domain.length) (hstrict : IsStrict s.domain)
    (before after : List Widening) :
    ∃ ds ds', s.widenAll before = .ok (s.withDomain ds) ∧ s.widenAll (before ++ after) = .ok (s.withDomain ds') ∧
      IsWidened s.domain ds' ∧ IsWidened ds ds' ∧ (.zero ∈ before ++ after → Spans ds' 0) := by
  obtain ⟨ds, hbefore, hwidened, hzero⟩ := exists_widenAll hnumeric hlength hstrict before
  have hlength' : 2 ≤ ds.length := hwidened.length.symm ▸ hlength
  obtain ⟨ds', hafter, hwidened', hzero'⟩ :=
    exists_widenAll (s := s.withDomain ds) hnumeric hlength' (hwidened.isStrict hstrict) after
  refine ⟨ds, ds', hbefore, ?_, hwidened.trans hwidened', hwidened', ?_⟩
  · show (before ++ after).foldlM widen s = _
    rw [List.foldlM_append]
    show (s.widenAll before >>= fun s' => s'.widenAll after) = _
    rw [hbefore]
    exact hafter
  · intro hmem
    rcases List.mem_append.mp hmem with hmem | hmem
    · exact hwidened'.spans 0 (hzero hmem)
    · exact hzero' hmem

/-- A squared scale over stops above zero, from the greatest to the least. -/
noncomputable def fallingSquares : Continuous Extended :=
  (Continuous.ofFamily .pow (.pow 2)).withDomain [7, 4, 2]

theorem widenAll_widens_fallingSquares :
    (fallingSquares.IsNumeric ∧ 2 ≤ fallingSquares.domain.length ∧ IsStrict fallingSquares.domain) ∧
      ∃ ds ds', fallingSquares.widenAll [.nice 3] = .ok (fallingSquares.withDomain ds) ∧
        fallingSquares.widenAll ([.nice 3] ++ [.zero, .nice 10]) = .ok (fallingSquares.withDomain ds') ∧
        IsWidened [7, 4, 2] ds' ∧ IsWidened ds ds' ∧
        (.zero ∈ [Widening.nice 3] ++ [.zero, .nice 10] → Spans ds' 0) := by
  have hnumeric : fallingSquares.IsNumeric := ⟨rfl, fun _ h => nomatch h⟩
  have hlength : 2 ≤ fallingSquares.domain.length := by decide
  have hstrict : IsStrict fallingSquares.domain := by
    right
    show ([7, 4, 2] : List Extended).Pairwise (· > ·)
    simp only [List.pairwise_cons, List.forall_mem_cons, gt_iff_lt, Extended.ofNat_eq, Extended.finite_lt]
    norm_num
  exact ⟨⟨hnumeric, hlength, hstrict⟩, widenAll_widens hnumeric hlength hstrict _ _⟩

end Continuous

end VisualEncoding
