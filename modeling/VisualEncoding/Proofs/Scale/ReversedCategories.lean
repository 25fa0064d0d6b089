import VisualEncoding.Proofs.Scale.Categories
import VisualEncoding.Proofs.Scale.Settings
import VisualEncoding.Proofs.Scalar.Wholes
import VisualEncoding.Proofs.Scalar.Extended
import VisualEncoding.Proofs.Value.Numbers

/-!
# Scales of categories, reversed

A config of categories is reversed by reversing its list of values, before the list loses its repeats. So the
reversed domain is the reverse of the list that keeps each key where it is last seen, while the domain that is
not reversed keeps each key where it is first seen:

> `realize_reversed`: the two domains, and the bands of the reversed scale, which lie where those of a scale
> with the ends of its range swapped lie.

The two lists are one if no key repeats. Then the reversed scale is the mirror image of the scale in every
respect; otherwise the domains differ in more than their direction (`not_reverse_of_repeated`).
-/

namespace VisualEncoding

open Categories (lastSeen)

/-! ## Intervals without length -/

namespace Extended

/-- A part of an interval without length has no width. -/
theorem part_cases (a m : Extended) :
    (a - a) / Scalar.greatest m 1 = finite 0 ∨ (a - a) / Scalar.greatest m 1 = undefined := by
  rcases sub_self_cases a with h | h
  · rw [h]
    rcases greatest_one_cases m with ⟨x, hx, hm⟩ | ⟨s, hm⟩
    · rw [hm, finite_div (by linarith), zero_div]
      exact Or.inl rfl
    · rw [hm]
      exact Or.inl rfl
  · rw [h]
    exact Or.inr rfl

theorem levelLaws (n : Nat) : Scalar.LevelLaws Extended n where
  mul_part a m i j _ _ := by
    rcases part_cases a m with h | h
    · rw [h, ofInt_eq, ofInt_eq, finite_mul, finite_mul, zero_mul, zero_mul]
    · rw [h]
      rfl
  mul_floor_part a m i j _ _ := by
    rcases part_cases a m with h | h
    · rw [h, floor_finite, Int.floor_zero, Int.cast_zero, ofInt_eq, ofInt_eq, finite_mul, finite_mul,
        zero_mul, zero_mul]
    · rw [h]
      rfl

end Extended

namespace Double

open Float.Model

/-- Nothing, or nothing that is defined. -/
def IsVoid (x : Float) : Prop := x = ofUnpacked (.zero .positive) ∨ x = ofUnpacked .notANumber

/-- A double taken from itself leaves nothing. -/
theorem isVoid_sub_self (a : Float) : IsVoid (a - a) := by
  show ofUnpacked (UnpackedFloat.sub Format.binary64 a.toModel.unpack a.toModel.unpack) = _ ∨
    ofUnpacked (UnpackedFloat.sub Format.binary64 a.toModel.unpack a.toModel.unpack) = _
  cases a.toModel.unpack with
  | notANumber => exact Or.inr rfl
  | infinity s => cases s <;> exact Or.inr rfl
  | zero s => cases s <;> exact Or.inl rfl
  | finite s m e hm =>
    refine Or.inl (congrArg ofUnpacked ?_)
    unfold UnpackedFloat.sub
    dsimp only
    rw [Int.sub_self]
    rfl

/-- A part of nothing is nothing. -/
theorem IsVoid.div {x w : Float} (h : IsVoid x) (hw : Decimal.floatOfInt 1 ≤ w) : IsVoid (x / w) := by
  rcases h with rfl | rfl
  · show ofUnpacked (UnpackedFloat.div Format.binary64 (.zero .positive) w.toModel.unpack) = _ ∨ _
    rcases cases_of_le (isFinite_ofInt (by decide)) hw with hinfinite | ⟨hfinite, hvalue⟩
    · rw [hinfinite]
      exact Or.inl rfl
    · rw [value_floatOfInt (by decide), Int.cast_one] at hvalue
      obtain ⟨k, e, hk, hs⟩ := unpack_of_pos hfinite (one_pos.trans_le hvalue)
      rw [hs]
      exact Or.inl rfl
  · exact Or.inr rfl

theorem IsVoid.floor {x : Float} (h : IsVoid x) : IsVoid (Decimal.floorFloat x) := by
  rcases h with rfl | rfl
  · have hsign : (ofUnpacked (.zero .positive)).toModel.unpack ≠ .zero .negative := by
      intro h
      exact nomatch UnpackedFloat.unpack_packedZero.symm.trans h
    have hvalue : value (ofUnpacked (.zero .positive)) = 0 := rfl
    rw [floorFloat_eq rfl hsign, hvalue, Int.floor_zero]
    exact Or.inl rfl
  · exact Or.inr rfl

/-- Multiples of nothing do not differ. -/
theorem IsVoid.mul_ofInt {x : Float} (h : IsVoid x) {i : Nat} (hi : i < 2 ^ 64) :
    x * Decimal.floatOfInt i = x := by
  rcases h with rfl | rfl
  · show ofUnpacked (UnpackedFloat.mul Format.binary64 (.zero .positive) (Decimal.floatOfInt i).toModel.unpack) = _
    rcases Nat.eq_zero_or_pos i with rfl | hpos
    · rfl
    · obtain ⟨k, e, hk, hs⟩ := unpack_floatOfInt (n := i) (by omega) (by omega)
      rw [hs]
      rfl
  · rfl

/-- Parts without width lie in one place as long as their number is counted in 64 bits. From 2 ^ 1024 on a count is
infinite, and nothing is defined that many widths away. -/
theorem levelLaws {n : Nat} (hn : n ≤ 2 ^ 64) : Scalar.LevelLaws Float n := by
  have hpart (a m : Float) : IsVoid ((a - a) / Scalar.greatest m (Scalar.ofInt 1)) :=
    (isVoid_sub_self a).div (Scalar.IsOrdered.le_greatest_right (isNaN_of_isFinite (isFinite_ofInt (by decide))))
  constructor
  · intro a m i j hi hj
    exact ((hpart a m).mul_ofInt (hi.trans_le hn)).trans ((hpart a m).mul_ofInt (hj.trans_le hn)).symm
  · intro a m i j hi hj
    exact ((hpart a m).floor.mul_ofInt (hi.trans_le hn)).trans ((hpart a m).floor.mul_ofInt (hj.trans_le hn)).symm

end Double

variable {α : Type} [Scalar α]

namespace CompleteScaleConfig

variable {c : CompleteScaleConfig α} {entries : List (DomainEntry α)} {values range : List (Value α)}
  {start stop : α} {p : Problem α}

/-! ## Ends of a range -/

theorem rangeEnds_eq_ok_iff :
    c.rangeEnds range = .ok (start, stop) ↔
      ∃ xs, range.mapM Value.toNumber? = some xs ∧ xs.head? = some start ∧ xs.getLast? = some stop := by
  unfold rangeEnds
  cases hxs : range.mapM Value.toNumber? with
  | none => exact ⟨fun h => (nomatch h), fun ⟨_, h, _⟩ => (nomatch h)⟩
  | some xs =>
    cases xs with
    | nil => exact ⟨fun h => (nomatch h), fun ⟨_, h, h', _⟩ => by cases h; nomatch h'⟩
    | cons x xs =>
      constructor
      · intro h
        cases h
        exact ⟨_, rfl, rfl, List.getLast?_eq_some_getLast _⟩
      · rintro ⟨_, ⟨⟩, ⟨⟩, hlast⟩
        rw [List.getLast?_eq_some_getLast (List.cons_ne_nil _ _)] at hlast
        cases hlast
        rfl

/-- A range that is reversed has its ends swapped. -/
theorem rangeEnds_reverse (h : c.rangeEnds range = .ok (start, stop)) :
    c.rangeEnds range.reverse = .ok (stop, start) := by
  obtain ⟨xs, hxs, hhead, hlast⟩ := rangeEnds_eq_ok_iff.mp h
  refine rangeEnds_eq_ok_iff.mpr ⟨xs.reverse, ?_, ?_, ?_⟩
  · exact Outcome.mapM_eq_some_of_forall₂
      (List.forall₂_reverse_iff.mpr (Outcome.forall₂_of_mapM_eq_some hxs))
  · rw [List.head?_reverse, hlast]
  · rw [List.getLast?_reverse, hhead]

/-- The ends of a range are defined. -/
theorem isNaN_of_rangeEnds (h : c.rangeEnds range = .ok (start, stop)) :
    Scalar.isNaN start = false ∧ Scalar.isNaN stop = false := by
  obtain ⟨xs, hxs, hhead, hlast⟩ := rangeEnds_eq_ok_iff.mp h
  have hdefined : ∀ x ∈ xs, Scalar.isNaN x = false := by
    intro x hx
    obtain ⟨v, -, hv⟩ := Outcome.exists_mem_of_forall₂ (Outcome.forall₂_of_mapM_eq_some hxs) hx
    exact Value.isNaN_of_toNumber? hv
  exact ⟨hdefined _ (List.mem_of_mem_head? hhead), hdefined _ (List.mem_of_mem_getLast? hlast)⟩

/-! ## Turning a config round -/

/-- The settings that make up the style of bands. -/
def styleProperties : List ScaleProperty := [.align, .padding, .paddingInner, .paddingOuter, .round]

/-- No other setting is part of the style. -/
theorem bandStyle_withSetting {p : ScaleProperty} (hp : p ∉ styleProperties) (value : Setting α p) :
    (c.withSetting p value).bandStyle = c.bandStyle := by
  have hkept : ∀ q ∈ styleProperties, (c.withSetting p value).setting q = c.setting q := by
    intro q hq
    refine setting_withSetting_of_ne ?_ value
    rintro rfl
    exact hp hq
  unfold bandStyle spaced
  rw [hkept .align (by decide), hkept .padding (by decide), hkept .paddingInner (by decide),
    hkept .paddingOuter (by decide), hkept .round (by decide)]
  rfl

/-- The bands of a config with a direction. -/
theorem band_withSetting_reverse (hentries : c.setting .domain = some entries)
    (hvalues : List.Forall₂ (fun entry v => valueOfEntry entry = .ok v) entries values) (on : Bool) :
    (c.withSetting .reverse on).band = c.bandEnds.map fun ends =>
      c.bandStyle.placed (.ofList (if on then values.reverse else values)) ends.1 ends.2 := by
  have hentries' : (c.withSetting .reverse on).setting .domain = some entries := by
    rw [setting_withSetting_of_ne (by decide), hentries]
  rw [band_of_entries hentries' hvalues, bandEnds_withSetting (by decide), bandStyle_withSetting (by decide),
    orient_withSetting_reverse]

/-- The config that is not reversed, with its range in reverse. -/
def overReverseRange (c : CompleteScaleConfig α) (range : List (Value α)) : CompleteScaleConfig α :=
  (c.withSetting .reverse false).withSetting .range range.reverse

theorem band_overReverseRange (hentries : c.setting .domain = some entries)
    (hvalues : List.Forall₂ (fun entry v => valueOfEntry entry = .ok v) entries values)
    (hends : c.rangeEnds range = .ok (start, stop)) :
    (c.overReverseRange range).band = .ok (c.bandStyle.placed (.ofList values) stop start) := by
  have hentries' : (c.overReverseRange range).setting .domain = some entries := by
    unfold overReverseRange
    rw [setting_withSetting_of_ne (by decide), setting_withSetting_of_ne (by decide), hentries]
  have hends' : (c.overReverseRange range).bandEnds = .ok (stop, start) :=
    (bandEnds_of_range (setting_withSetting_self _)).trans (rangeEnds_reverse hends)
  have horient : (c.overReverseRange range).orient values = values := by
    unfold orient overReverseRange
    rw [isReversed_withSetting_of_ne (by decide), isReversed_withSetting_reverse]
    rfl
  have hstyle : (c.overReverseRange range).bandStyle = c.bandStyle := by
    unfold overReverseRange
    rw [bandStyle_withSetting (by decide), bandStyle_withSetting (by decide)]
  rw [band_of_entries hentries' hvalues, hends', horient, hstyle]
  rfl

/-- Bands whose list of values is reversed lie where those over the swapped range lie, each key where the
list shows it last. -/
theorem bands_reversed [Std.Asymm (α := α) (· < ·)] (style : Band α) (values : List (Value α))
    (hends : start < stop ∨ stop < start ∨ start = stop ∧ Scalar.LevelLaws α values.length) :
    let b := style.placed (.ofList values.reverse) start stop
    let m := style.placed (.ofList values) stop start
    b.layout.step = m.layout.step ∧ b.layout.bandwidth = m.layout.bandwidth ∧
      ∀ v, b.apply v = (m.withDomain (lastSeen values)).apply v := by
  intro b m
  have hsmall : (Categories.ofList (lastSeen values)).size ≤ values.length := by
    show (Categories.ofList (lastSeen values)).values.length ≤ _
    rw [Categories.values_ofList_of_nodup (Categories.nodup_lastSeen values)]
    exact (Categories.lastSeen_sublist values).length_le
  have hswapped : stop < start ∨ start < stop ∨
      stop = start ∧ Scalar.LevelLaws α (Categories.ofList (lastSeen values)).size := by
    rcases hends with h | h | ⟨h, hlaws⟩
    · exact Or.inr (Or.inl h)
    · exact Or.inl h
    · exact Or.inr (Or.inr ⟨h.symm, hlaws.mono hsmall⟩)
  have hb : b = (m.withDomain (lastSeen values)).mirrored :=
    congrArg (style.placed · start stop) (Categories.ofList_reverse values)
  have hsize : (Categories.ofList (lastSeen values)).size = m.domain.size := by
    have hreversed : (Categories.ofList (lastSeen values)).reversed.size
        = (Categories.ofList (lastSeen values)).size := List.length_reverse
    rw [← hreversed, ← Categories.ofList_reverse]
    exact Categories.size_ofList_reverse values
  have hlayout := Band.layout_mirrored (s := m.withDomain (lastSeen values)) hswapped
  rw [← hb, Band.layout_withDomain hsize] at hlayout
  refine ⟨by rw [hlayout], by rw [hlayout], ?_⟩
  intro v
  rw [hb]
  exact Band.apply_mirrored hswapped v

/-- Two exact numbers that are the ends of a range differ, or are one number. -/
theorem exact_ends_of_rangeEnds {c : CompleteScaleConfig Extended} {range : List (Value Extended)}
    {start stop : Extended} (hread : c.rangeEnds range = .ok (start, stop)) (n : Nat) :
    start < stop ∨ stop < start ∨ start = stop ∧ Scalar.LevelLaws Extended n := by
  obtain ⟨hstart, hstop⟩ := isNaN_of_rangeEnds hread
  by_cases hup : start < stop
  · exact Or.inl hup
  · by_cases hdown : stop < start
    · exact Or.inr (Or.inl hdown)
    · exact Or.inr (Or.inr ⟨Extended.eq_of_not_lt hstart hstop hup hdown, Extended.levelLaws n⟩)

/-- Bands with a direction, in a session. -/
theorem realize_withSetting_reverse (hf : c.family.isBanded = true)
    (hentries : c.setting .domain = some entries)
    (hvalues : List.Forall₂ (fun entry v => valueOfEntry entry = .ok v) entries values) (on : Bool)
    (session : Session α) :
    (c.withSetting .reverse on).realize.run.run session
      = (c.bandEnds.map fun ends =>
          .band (c.bandStyle.placed (.ofList (if on then values.reverse else values)) ends.1 ends.2),
        session) := by
  rw [realize_of_isBanded (c := c.withSetting .reverse on) hf,
    band_withSetting_reverse hentries hvalues]
  cases c.bandEnds <;> rfl

/-- **Reversal of categories.** A config of categories with a domain is turned into a scale whatever its
direction, unless it is one of bands whose range is not numeric. The domain has each key where the list of
values shows it first, and if it is reversed, in reverse, where the list shows it last. Bands over a numeric
range, whose ends differ or are one number, have the same step and width as those that are not reversed over the
range in reverse, and give every value the position that it has there if each key stands where it is seen last. -/
theorem realize_reversed [Std.Asymm (α := α) (· < ·)]
    (hf : c.family.isBanded = true ∨ c.family = .ordinal) (hentries : c.setting .domain = some entries)
    (hvalues : List.Forall₂ (fun entry v => valueOfEntry entry = .ok v) entries values)
    (session : Session α) :
    let plain := (c.withSetting .reverse false).realize.run.run session
    let turned := (c.withSetting .reverse true).realize.run.run session
    (∃ range p, c.family.isBanded = true ∧ c.setting .range = some range ∧
      c.rangeEnds range = .error p ∧ plain = (.error p, session) ∧ turned = (.error p, session)) ∨
    ∃ s s', plain.1 = .ok s ∧ turned.1 = .ok s' ∧
      s.domain plain.2 = (Categories.ofList values).values ∧
      s'.domain turned.2 = (lastSeen values).reverse ∧
      ((values.map Value.key).Nodup → s'.domain turned.2 = (s.domain plain.2).reverse) ∧
      ∀ range start stop, c.family.isBanded = true → c.setting .range = some range →
        c.rangeEnds range = .ok (start, stop) →
        start < stop ∨ stop < start ∨ start = stop ∧ Scalar.LevelLaws α values.length →
        ∃ b m, s' = .band b ∧
          (c.overReverseRange range).realize.run.run session = (.ok (.band m), session) ∧
          b.layout.step = m.layout.step ∧ b.layout.bandwidth = m.layout.bandwidth ∧
          (∀ v, b.apply v = (m.withDomain (lastSeen values)).apply v) ∧
          ((values.map Value.key).Nodup → ∀ v, b.apply v = m.apply v) := by
  intro plain turned
  have hnodup : (values.map Value.key).Nodup →
      (lastSeen values).reverse = (Categories.ofList values).values.reverse := by
    intro h
    rw [Categories.lastSeen_of_nodup h, Categories.values_ofList_of_nodup h]
  rcases hf with hbanded | hordinal
  · have hplain : plain = _ := realize_withSetting_reverse hbanded hentries hvalues false session
    have hturned : turned = _ := realize_withSetting_reverse hbanded hentries hvalues true session
    cases hends : c.bandEnds with
    | error p =>
      rw [hends] at hplain hturned
      obtain ⟨range, hrange, herror⟩ := range_of_bandEnds_eq_error hends
      exact Or.inl ⟨range, p, hbanded, hrange, herror, hplain, hturned⟩
    | ok ends =>
      rw [hends] at hplain hturned
      have hlast := Categories.values_ofList_reverse values
      refine Or.inr ⟨_, _, congrArg Prod.fst hplain, congrArg Prod.fst hturned, rfl, hlast, ?_, ?_⟩
      · intro h
        exact hlast.trans (hnodup h)
      · intro range start stop _ hrange hread horder
        cases hread.symm.trans ((bandEnds_of_range hrange).symm.trans hends)
        obtain ⟨hstep, hwidth, happly⟩ := bands_reversed c.bandStyle values horder
        refine ⟨_, _, rfl, ?_, hstep, hwidth, happly, ?_⟩
        · rw [realize_of_isBanded (c := c.overReverseRange range) hbanded,
            band_overReverseRange hentries hvalues hread]
          rfl
        · intro h v
          refine (happly v).trans ?_
          rw [Categories.lastSeen_of_nodup h]
          rfl
  · obtain ⟨s, after, hplain, hdomain⟩ := realize_of_ordinal (c := c.withSetting .reverse false)
      hordinal (by rw [setting_withSetting_of_ne (by decide), hentries]) hvalues session
    obtain ⟨s', after', hturned, hdomain'⟩ := realize_of_ordinal (c := c.withSetting .reverse true)
      hordinal (by rw [setting_withSetting_of_ne (by decide), hentries]) hvalues session
    rw [orient_withSetting_reverse] at hdomain hdomain'
    have hplain : plain = _ := hplain
    have hturned : turned = _ := hturned
    have hlast : s'.domain after' = (lastSeen values).reverse :=
      hdomain'.trans (Categories.values_ofList_reverse values)
    rw [hplain, hturned]
    refine Or.inr ⟨s, s', rfl, rfl, hdomain, hlast, ?_, ?_⟩
    · intro h
      exact (hlast.trans (hnodup h)).trans (congrArg List.reverse hdomain.symm)
    · intro range start stop hbanded
      rw [hordinal] at hbanded
      nomatch hbanded

theorem realize_reversed_bandABA :
    let c {α : Type} [Scalar α] (stop : α) : CompleteScaleConfig α :=
      { family := .band
        options := (ScaleOptions.empty.set .domain
          (some [.value (.string "a"), .value (.string "b"), .value (.string "a")])).set .range
            (some [.number 0, .number stop]) }
    let HasMirror {α : Type} [Scalar α] (stop : α) : Prop :=
      ∃ b m : Band α, (((c stop).withSetting .reverse true).realize.run.run {}).1 = .ok (.band b) ∧
        b.domain.values = [.string "a", .string "b"] ∧
        (((c stop).overReverseRange [.number 0, .number stop]).realize.run.run {}).1 = .ok (.band m) ∧
        b.layout.bandwidth = m.layout.bandwidth ∧
        ∀ v, b.apply v = (m.withDomain [.string "b", .string "a"]).apply v
    HasMirror (1 : Float) ∧ HasMirror (0 : Float) ∧ HasMirror (0 : Extended) := by
  intro c HasMirror
  have hmirror {α : Type} [Scalar α] [Std.Asymm (α := α) (· < ·)] {stop : α}
      (hread : (c stop).rangeEnds [.number 0, .number stop] = .ok (0, stop))
      (hends : 0 < stop ∨ stop < 0 ∨ 0 = stop ∧ Scalar.LevelLaws α 3) : HasMirror stop := by
    have hvalues : List.Forall₂ (fun entry v => valueOfEntry entry = .ok v)
        [.value (.string "a"), .value (.string "b"), .value (.string "a")]
        [(.string "a" : Value α), .string "b", .string "a"] :=
      .cons rfl (.cons rfl (.cons rfl .nil))
    rcases realize_reversed (c := c stop) (Or.inl rfl) rfl hvalues {} with
      ⟨_, p, -, hrange, herror, -⟩ | ⟨s, s', -, hturned, -, hdomain, -, hbands⟩
    · cases hrange
      nomatch hread.symm.trans herror
    · obtain ⟨b, m, rfl, hm, -, hwidth, happly, -⟩ := hbands _ 0 stop rfl rfl hread hends
      exact ⟨b, m, hturned, hdomain, congrArg Prod.fst hm, hwidth, happly⟩
  have hexact : (c (0 : Extended)).rangeEnds [.number 0, .number 0] = .ok (0, 0) :=
    rangeEnds_eq_ok_iff.mpr ⟨[0, 0], rfl, rfl, rfl⟩
  refine ⟨hmirror ?_ (Or.inl (by decide)), hmirror ?_ (Or.inr (Or.inr ⟨rfl, Double.levelLaws (by decide)⟩)),
    hmirror hexact (exact_ends_of_rangeEnds hexact 3)⟩
  · exact rangeEnds_eq_ok_iff.mpr ⟨[0, 1], by decide, rfl, rfl⟩
  · exact rangeEnds_eq_ok_iff.mpr ⟨[0, 0], by decide, rfl, rfl⟩

/-- A point scale over a list with a repeat has the same domain in both directions. -/
theorem not_reverse_of_repeated :
    let c : CompleteScaleConfig Float :=
      { family := .point
        options := ScaleOptions.empty.set .domain
          (some [.value (.string "a"), .value (.string "b"), .value (.string "a")]) }
    let plain := (c.withSetting .reverse false).realize.run.run {}
    let turned := (c.withSetting .reverse true).realize.run.run {}
    ∃ s s', plain.1 = .ok s ∧ turned.1 = .ok s' ∧
      s.domain plain.2 = [.string "a", .string "b"] ∧
      s'.domain turned.2 = [.string "a", .string "b"] ∧
      s'.domain turned.2 ≠ (s.domain plain.2).reverse := by
  intro c plain turned
  refine ⟨_, _, rfl, rfl, rfl, rfl, ?_⟩
  intro h
  nomatch List.head_eq_of_cons_eq h

end CompleteScaleConfig

end VisualEncoding
