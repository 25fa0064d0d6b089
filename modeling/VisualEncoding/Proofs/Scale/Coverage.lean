import VisualEncoding.Proofs.Calendar.Spans
import VisualEncoding.Proofs.Scalar.Powers
import VisualEncoding.Proofs.Scale.Style

/-!
# What a scale covers

Moving the ends of a domain outward does not leave out a number that lay between them (`movedEnds_widens`), and
numbers between the ends are not touched by clamping: the transforms keep the order, so that their transforms lie
between those of the ends (`Continuous.map_withClamp`). The scale that a config becomes with clamping switched on
or off is the same one but for the switch (`continuous_withSetting_clamp`).
-/

namespace VisualEncoding

open Extended (finite infinite)

/-! ## Clamping -/

/-- Signed powers keep the order of the numbers. -/
theorem signedPow_le {e : Extended} {x y : ℝ} (he : 0 < e) (hxy : x ≤ y) :
    signedPow (finite x) e ≤ signedPow (finite y) e := by
  unfold signedPow
  simp only [Extended.zero_eq, Extended.finite_lt, Extended.neg_finite]
  by_cases hy : y < 0
  · rw [if_pos (hxy.trans_lt hy), if_pos hy]
    exact Extended.neg_le_neg (Extended.pow_le_pow he (by linarith) (by linarith)).2
  · rw [if_neg hy]
    by_cases hx : x < 0
    · rw [if_pos hx]
      have hleft := Extended.neg_le_neg (Extended.pow_le_pow he (x := -x) (y := -x) (by linarith) le_rfl).1
      have hright := (Extended.pow_le_pow he (x := y) (y := y) (by linarith) le_rfl).1
      rw [Extended.zero_eq, Extended.neg_finite, neg_zero] at hleft
      rw [Extended.zero_eq] at hright
      exact Extended.le_trans hleft hright
    · rw [if_neg hx]
      exact (Extended.pow_le_pow he (by linarith) hxy).2

/-- A transform that keeps the order of the numbers. -/
def Transform.KeepsOrder : Transform Extended → Prop
  | .identity => True
  | .log _ => False
  | .pow exponent => 0 < exponent

namespace Continuous

variable {s : Continuous Extended} {p q t : Extended} {a b x : ℝ} {on : Bool}

theorem forward_le (h : s.transform.KeepsOrder) {x y : ℝ} (hxy : x ≤ y) :
    s.forward (finite x) ≤ s.forward (finite y) := by
  unfold forward
  unfold Transform.KeepsOrder at h
  cases htransform : s.transform with
  | identity => exact Extended.finite_le.mpr hxy
  | log base =>
    rw [htransform] at h
    exact h.elim
  | pow exponent =>
    rw [htransform] at h
    exact signedPow_le h hxy

theorem clampTo_of_le (h : p ≤ t) (h' : t ≤ q) : s.clampTo [p, q] t = t := by
  unfold clampTo
  cases s.clamp with
  | false => rfl
  | true => exact Extended.clamp_of_le h h'

/-- Between the stops clamping does nothing. -/
theorem mapTransformed_withClamp (hstops : s.domainStops = [p, q]) (ht : p ≤ t ∧ t ≤ q ∨ q ≤ t ∧ t ≤ p) :
    (s.withClamp on).mapTransformed t = s.mapTransformed t := by
  -- the stops in ascending order enclose the number, also where both are in the same place
  have hbetween : ∀ s' : Continuous Extended,
      s'.clampTo (if descends [p, q] then [p, q].reverse else [p, q]) t = t := by
    intro s'
    have hdescends : descends [p, q] = decide (q < p) := rfl
    by_cases hlt : q < p
    · rw [hdescends, decide_eq_true hlt, if_pos rfl]
      rcases ht with ⟨h, h'⟩ | ⟨h, h'⟩
      · exact absurd (Extended.le_trans h h') (Extended.not_le_of_lt hlt)
      · exact clampTo_of_le h h'
    · rw [hdescends, decide_eq_false hlt, if_neg Bool.false_ne_true]
      rcases ht with ⟨h, h'⟩ | ⟨h, h'⟩
      · exact clampTo_of_le h h'
      · rcases Extended.lt_or_eq_of_le (Extended.le_trans h h') with hlt' | rfl
        · exact absurd hlt' hlt
        · exact clampTo_of_le h h'
  have hstops' : (s.withClamp on).domainStops = [p, q] := hstops
  unfold mapTransformed
  dsimp only
  rw [hstops, hstops', hbetween s, hbetween (s.withClamp on)]
  rfl

/-- Numbers between the ends of the domain are mapped in the same way whether the scale clamps or not. -/
theorem map_withClamp (hdomain : s.domain = [finite a, finite b]) (htransform : s.transform.KeepsOrder)
    (hx : a ≤ x ∧ x ≤ b ∨ b ≤ x ∧ x ≤ a) : (s.withClamp on).map (finite x) = s.map (finite x) := by
  have hcount' : (s.withClamp on).stopCount = s.stopCount := rfl
  unfold map
  rw [hcount']
  match hcount : s.stopCount with
  | 0 => rfl
  | 1 => rfl
  | n + 2 =>
    have hstops : s.domainStops = [s.forward (finite a), s.forward (finite b)] := by
      unfold domainStops
      rw [hcount, hdomain, List.take_succ_cons, List.take_succ_cons, List.take_nil]
      rfl
    refine mapTransformed_withClamp hstops ?_
    refine hx.imp (fun h => ?_) (fun h => ?_)
    · exact ⟨forward_le htransform h.1, forward_le htransform h.2⟩
    · exact ⟨forward_le htransform h.1, forward_le htransform h.2⟩

/-- So are the values that stand for such numbers. -/
theorem apply_withClamp {v : Value Extended} (hdomain : s.domain = [finite a, finite b])
    (htransform : s.transform.KeepsOrder)
    (hv : ∀ z, s.ofValue? v = some z → ∃ x, z = finite x ∧ (a ≤ x ∧ x ≤ b ∨ b ≤ x ∧ x ≤ a)) :
    (s.withClamp on).apply v = s.apply v := by
  have hof : (s.withClamp on).ofValue? v = s.ofValue? v := rfl
  unfold apply
  rw [hof]
  cases hread : s.ofValue? v with
  | none => rfl
  | some z =>
    obtain ⟨x, rfl, hx⟩ := hv z hread
    exact congrArg (Option.getD · Value.null) (congrArg some (map_withClamp hdomain htransform hx))

end Continuous

namespace CompleteScaleConfig

/-! ## Configs that differ in clamping -/

section Clamp

variable {α : Type} [Scalar α] {c : CompleteScaleConfig α} {schemes : SchemeRegistry}

/-- Whether a scale clamps is all that the setting decides. -/
theorem continuous_withSetting_clamp {domain? : Option (List α)} {a b : α}
    (hdomain : c.numericDomain? c.family.isTime = .ok domain?) (hends : domain?.elim [0, 1] c.orient = [a, b])
    (on : Bool) :
    (c.withSetting .clamp on).continuous schemes = (c.continuous schemes).map fun s => s.withClamp on := by
  have hreversed : (c.withSetting .clamp on).isReversed = c.isReversed :=
    isReversed_withSetting_of_ne (p := .clamp) (by decide) on
  have horient : (c.withSetting .clamp on).orient = (c.orient : List α → List α) := by
    funext xs
    unfold orient
    rw [hreversed]
  have hends' : domain?.elim [0, 1] (c.withSetting .clamp on).orient = [a, b] := by
    rw [horient]
    exact hends
  have hstops : ∀ range, (c.withSetting .clamp on).stopsOver domain? range = c.stopsOver domain? range := by
    intro range
    have htransform : (c.withSetting .clamp on).transform = c.transform :=
      transform_withSetting (p := .clamp) (by decide) (by decide) on
    unfold stopsOver
    rw [htransform, horient, hreversed]
    rfl
  have hstyled : ∀ s space?, (c.withSetting .clamp on).styled s space? = (c.styled s space?).withClamp on := by
    intro s space?
    unfold styled
    rw [setting_withSetting_self, setting_withSetting_of_ne (by decide)]
    rfl
  rw [continuous_eq (c := c.withSetting .clamp on)
      ((numericDomain?_withSetting (p := .clamp) (by decide) on _).trans hdomain) hends',
    continuous_eq hdomain hends, continuousStyle_withSetting (by decide),
    movedEnds_withSetting (by decide) (by decide) (by decide)]
  cases c.continuousStyle schemes with
  | error p => rfl
  | ok style =>
    obtain ⟨range, space?, count?⟩ := style
    simp only [bind, Except.bind, hstops, hstyled]
    cases c.movedEnds a b count? with
    | error p => rfl
    | ok ends => rfl

end Clamp

/-! ## Moved ends -/

variable {c : CompleteScaleConfig Extended} {schemes : SchemeRegistry} {a b : ℝ} {count? : Option Nat}

/-- Nice counts are positive. -/
theorem niceCount?_pos {count : Nat} (h : c.niceCount? = .ok (some count)) : 1 ≤ count := by
  unfold niceCount? at h
  split at h
  · nomatch h
  next on _ =>
    cases on with
    | true =>
      cases h
      decide
    | false => nomatch h
  next n _ =>
    split at h
    next hn =>
      cases h
      have htruncate : 1 ≤ Scalar.truncate n := by
        rw [Extended.one_eq] at hn
        cases n with
        | finite x =>
          rw [Extended.finite_le] at hn
          show 1 ≤ (if x < 0 then ⌈x⌉ else ⌊x⌋)
          rw [if_neg (by linarith), Int.le_floor]
          exact_mod_cast hn
        | infinite s =>
          cases s with
          | false =>
            show 1 ≤ Extended.truncate (infinite false)
            rw [Extended.truncate, if_neg Bool.false_ne_true]
            exact one_le_pow₀ (by norm_num)
          | true =>
            obtain ⟨_, ⟨⟩, _, ⟨⟩, hn⟩ := hn
            exact absurd hn (EReal.bot_lt_coe _).not_ge
        | undefined => obtain ⟨_, _, _, ⟨⟩, _⟩ := hn
      unfold Scalar.toCount Scalar.truncateWithin
      omega
    next => nomatch h
  · nomatch h
  · nomatch h

/-- Scales of numbers whose distances are measured in the order of the numbers. -/
def MeasuresNumbers (c : CompleteScaleConfig Extended) : Prop :=
  c.family = .linear ∨ c.family = .sqrt ∨ c.family = .pow ∧ 0 < (c.setting .exponent).getD 1

theorem MeasuresNumbers.isTime (h : c.MeasuresNumbers) : c.family.isTime = false := by
  rcases h with h | h | ⟨h, -⟩ <;> rw [h] <;> rfl

theorem MeasuresNumbers.keepsOrder (h : c.MeasuresNumbers) : c.transform.KeepsOrder := by
  unfold transform
  rcases h with h | h | ⟨h, hexponent⟩
  · rw [h]
    trivial
  · rw [h]
    show 0 < (1 / 2 : Extended)
    rw [Extended.half_eq, Extended.zero_eq, Extended.finite_lt]
    norm_num
  · rw [h]
    exact hexponent

theorem zeroEnds_widens (c : CompleteScaleConfig Extended) (a b : ℝ) :
    ∃ a' b' : ℝ, c.zeroEnds (finite a, finite b) = (finite a', finite b') ∧ Ticks.Widens a b a' b' := by
  unfold zeroEnds
  split
  · exact includeZero_widens a b
  · exact ⟨a, b, rfl, Ticks.Widens.refl a b⟩

/-- On a scale of numbers the ends move outward. -/
theorem MeasuresNumbers.movedEnds_widens (h : c.MeasuresNumbers) (a b : ℝ) (count? : Option Nat) :
    ∃ a' b' : ℝ, c.movedEnds (finite a) (finite b) count? = .ok (finite a', finite b') ∧
      Ticks.Widens a b a' b' := by
  unfold movedEnds
  cases count? with
  | none =>
    obtain ⟨a', b', hzero, hwidens⟩ := c.zeroEnds_widens a b
    exact ⟨a', b', congrArg Except.ok hzero, hwidens⟩
  | some count =>
    obtain ⟨a', b', hlinear, hwidens⟩ := Ticks.niceLinear_widens a b count
    obtain ⟨a'', b'', hzero, hwidens'⟩ := c.zeroEnds_widens a' b'
    have hnice : c.niceEnds (finite a) (finite b) count = .ok (finite a', finite b') := by
      unfold niceEnds
      rw [h.isTime, if_neg Bool.false_ne_true, hlinear]
      have horder := h.keepsOrder
      cases htransform : c.transform with
      | log base =>
        rw [htransform] at horder
        exact horder.elim
      | identity | pow => rfl
    refine ⟨a'', b'', ?_, hwidens.trans hwidens'⟩
    dsimp only
    rw [hnice]
    exact congrArg Except.ok hzero

/-- On a scale of universal time they move outward if they are near the present. -/
theorem movedEnds_widens_of_utc (hfamily : c.family = .utc) {m n : ℤ} (hm : Calendar.IsNear m)
    (hn : Calendar.IsNear n) (hcount : c.niceCount? = .ok count?) :
    ∃ a' b' : ℝ, c.movedEnds (finite m) (finite n) count? = .ok (finite a', finite b') ∧
      Ticks.Widens m n a' b' := by
  have hzero : c.zeroEnds = id := by
    funext ends
    unfold zeroEnds takesZero
    rw [hfamily]
    show (if (_ && false) = true then _ else _) = _
    rw [Bool.and_false, if_neg Bool.false_ne_true]
    rfl
  unfold movedEnds
  rw [hzero]
  cases count? with
  | none => exact ⟨m, n, rfl, Ticks.Widens.refl _ _⟩
  | some count =>
    obtain ⟨a', b', hspan, hwidens⟩ := Calendar.niceSpan_widens hm hn (niceCount?_pos hcount)
    refine ⟨a', b', ?_, hwidens⟩
    unfold niceEnds
    rw [hfamily]
    show (onCalendar (Calendar.niceSpan Calendar.Zone.utc (finite m) (finite n) count)).map id = _
    rw [hspan]
    rfl

end CompleteScaleConfig

end VisualEncoding
