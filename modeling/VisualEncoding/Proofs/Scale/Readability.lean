import VisualEncoding.Proofs.Outcome
import VisualEncoding.Scale.Realization

/-!
# What can be read of a scale config

A domain on an axis has entries that have places on the axis, a range of stops has numbers or colors, and
a method of blending has a name that is known. These are stated here in words of the config
(`IsReadable`), and compared with what the readers of domain and range make of it.

> `numericDomain?_eq_ok_iff`: a domain is read if each of its entries has a place.
> `outputRange_eq_ok_iff`: a range is read if its values are stops.
-/

namespace VisualEncoding

/-- The methods by which colors are blended. -/
def blendingMethods : List String := ["rgb", "oklab", "lab", "hcl", "hsl"]

/-- The methods by which colors are not blended though they have a name. -/
def missingMethods : List String := ["hcl-long", "hsl-long", "cubehelix", "cubehelix-long"]

namespace CompleteScaleConfig

variable {α : Type} {c : CompleteScaleConfig α} {p : Problem α}

/-! ## Ranges -/

/-- Values that are all numbers, or all colors. -/
def AreStops (range : List (Value α)) : Prop :=
  (∃ numbers : List α, range = numbers.map .number) ∨
    ∃ texts : List String, range = texts.map .string ∧
      ∀ text ∈ texts, ∃ color, Color.read text = .ok color

/-- Texts make a ramp if all of them are colors, provided that there are any. -/
theorem rampOfTexts_eq_ok_iff {texts : List String} (space : ColorSpace) (hne : texts ≠ []) :
    (∃ ramp, rampOfTexts (α := α) texts space = .ok ramp) ↔
      ∀ text ∈ texts, ∃ color, Color.read text = .ok color := by
  have hstops : (∃ stops, texts.mapM (fun s => (Color.read s).mapError fun fault => (s, fault))
      = .ok stops) ↔ ∀ text ∈ texts, ∃ color, Color.read text = .ok color := by
    rw [Outcome.exists_mapM_eq_ok_iff]
    exact forall₂_congr fun text _ => exists_congr fun color => Outcome.mapError_eq_ok_iff
  rw [← hstops]
  cases hread : texts.mapM fun s => (Color.read s).mapError fun fault => (s, fault) with
  | error fault =>
    have hfault : ColorRamp.ofTexts? texts space = .error fault := by
      unfold ColorRamp.ofTexts?
      rw [hread]
      rfl
    unfold rampOfTexts
    rw [hfault]
    exact ⟨fun ⟨_, h⟩ => (nomatch h), fun ⟨_, h⟩ => (nomatch h)⟩
  | ok stops =>
    have hstops_ne : stops ≠ [] := by
      rintro rfl
      exact hne (List.length_eq_zero_iff.mp (Outcome.mapM_eq_ok_iff.mp hread).length_eq)
    have hramp : ColorRamp.ofTexts? texts space
        = .ok (some { stops, space, stops_ne_nil := hstops_ne }) := by
      unfold ColorRamp.ofTexts?
      rw [hread]
      show Except.ok (dite _ _ _) = _
      rw [dif_neg hstops_ne]
    unfold rampOfTexts
    rw [hramp]
    exact ⟨fun _ => ⟨stops, rfl⟩, fun _ => ⟨_, rfl⟩⟩

/-- Values make a range if they are stops. -/
theorem outputRange_eq_ok_iff {range : List (Value α)} (space : ColorSpace) :
    (∃ r, outputRange range space = .ok r) ↔ AreStops range := by
  unfold outputRange
  dsimp only
  split
  · next numbers hnumbers =>
    refine ⟨fun _ => Or.inl ⟨numbers, ?_⟩, fun _ => ⟨.numbers numbers, rfl⟩⟩
    refine Outcome.eq_map_of_forall₂ ((Outcome.forall₂_of_mapM_eq_some hnumbers).imp ?_)
    intro v x hv
    split at hv
    · cases hv
      rfl
    · nomatch hv
  · next hnone =>
    constructor
    · rintro ⟨r, hr⟩
      obtain ⟨texts, htexts, hr⟩ := Outcome.bind_eq_ok_iff.mp hr
      obtain ⟨ramp, hramp, -⟩ := Outcome.bind_eq_ok_iff.mp hr
      have hrange : range = texts.map .string := by
        refine Outcome.eq_map_of_forall₂ ((Outcome.mapM_eq_ok_iff.mp htexts).imp ?_)
        intro v text hv
        split at hv
        · cases hv
          rfl
        · nomatch hv
      have hne : texts ≠ [] := by
        rintro rfl
        subst hrange
        nomatch hnone
      exact Or.inr ⟨texts, hrange, (rampOfTexts_eq_ok_iff space hne).mp ⟨ramp, hramp⟩⟩
    · rintro (⟨numbers, rfl⟩ | ⟨texts, rfl, hread⟩)
      · -- numbers are not read as colors
        rw [List.mapM_map] at hnone
        exact nomatch hnone.symm.trans (List.mapM_pure (m := Option) (f := id))
      · have hne : texts ≠ [] := by
          rintro rfl
          nomatch hnone
        obtain ⟨ramp, hramp⟩ := (rampOfTexts_eq_ok_iff (α := α) space hne).mpr hread
        refine ⟨.colors ramp, Outcome.bind_eq_ok_iff.mpr ⟨texts, ?_, ?_⟩⟩
        · rw [List.mapM_map]
          exact (List.mapM_pure (m := Except (Problem α)) (f := id)).trans
            (congrArg Except.ok (List.map_id texts))
        · rw [hramp]
          rfl

variable [Scalar α] {schemes : SchemeRegistry}

/-! ## Domains -/

/-- An entry of a domain has a place on the axis of its family. -/
def CanPlace (c : CompleteScaleConfig α) : DomainEntry α → Prop
  | .date spec => ∃ t, spec.resolve (c.family == .time) = .ok t
  | .value v => if c.family.isTime then v.toInstant?.isSome else v.toNumber?.isSome

/-- An entry is a number if it has a place. -/
theorem numberOfEntry_eq_ok_iff (entry : DomainEntry α) :
    (∃ x, c.numberOfEntry c.family.isTime entry = .ok x) ↔ c.CanPlace entry := by
  cases entry with
  | date spec =>
    unfold numberOfEntry CanPlace
    dsimp only
    cases spec.resolve (c.family == .time) with
    | ok t => exact ⟨fun _ => ⟨t, rfl⟩, fun _ => ⟨_, rfl⟩⟩
    | error fault => exact ⟨fun ⟨_, h⟩ => (nomatch h), fun ⟨_, h⟩ => (nomatch h)⟩
  | value v =>
    unfold numberOfEntry CanPlace
    dsimp only
    cases c.family.isTime with
    | true =>
      rw [if_pos rfl, if_pos rfl]
      cases v.toInstant? with
      | some t => exact ⟨fun _ => rfl, fun _ => ⟨_, rfl⟩⟩
      | none => exact ⟨fun ⟨_, h⟩ => (nomatch h), fun h => (nomatch h)⟩
    | false =>
      rw [if_neg Bool.false_ne_true, if_neg Bool.false_ne_true]
      cases v.toNumber? with
      | some x => exact ⟨fun _ => rfl, fun _ => ⟨_, rfl⟩⟩
      | none => exact ⟨fun ⟨_, h⟩ => (nomatch h), fun h => (nomatch h)⟩

/-- The domain is one of numbers if all of its entries have a place. -/
theorem numericDomain?_eq_ok_iff :
    (∃ domain?, c.numericDomain? c.family.isTime = .ok domain?) ↔
      ∀ entries, c.setting .domain = some entries → ∀ entry ∈ entries, c.CanPlace entry := by
  unfold numericDomain?
  cases hset : c.setting .domain with
  | none => exact ⟨fun _ _ h => (nomatch h), fun _ => ⟨none, rfl⟩⟩
  | some entries =>
    have hplaces : (∃ xs, entries.mapM (c.numberOfEntry c.family.isTime) = .ok xs) ↔
        ∀ entry ∈ entries, c.CanPlace entry := by
      rw [Outcome.exists_mapM_eq_ok_iff]
      exact forall₂_congr fun entry _ => numberOfEntry_eq_ok_iff entry
    constructor
    · rintro ⟨domain?, h⟩ _ ⟨⟩
      obtain ⟨xs, hxs, -⟩ := Outcome.map_eq_ok_iff.mp h
      exact hplaces.mp ⟨xs, hxs⟩
    · intro h
      obtain ⟨xs, hxs⟩ := hplaces.mpr (h entries rfl)
      exact ⟨some xs, Outcome.map_eq_ok_iff.mpr ⟨xs, hxs, rfl⟩⟩

/-- A continuous config has stops if its domain and its range are valid. -/
theorem continuousStops_eq_ok_iff :
    (∃ s, c.continuousStops schemes = .ok s) ↔
      (∀ entries, c.setting .domain = some entries → ∀ entry ∈ entries, c.CanPlace entry) ∧
      ∀ range, c.rangeOrScheme? schemes = some range → AreStops range := by
  rw [← numericDomain?_eq_ok_iff]
  unfold continuousStops
  cases hdomain : c.numericDomain? c.family.isTime with
  | error p => exact ⟨fun ⟨_, h⟩ => (nomatch h), fun ⟨⟨_, h⟩, _⟩ => (nomatch h)⟩
  | ok domain? =>
    cases hrange : c.rangeOrScheme? schemes with
    | none => exact ⟨fun _ => ⟨⟨_, rfl⟩, fun _ h => (nomatch h)⟩, fun _ => ⟨_, rfl⟩⟩
    | some range =>
      constructor
      · rintro ⟨s, hs⟩
        obtain ⟨_, ⟨⟩, hs⟩ := Outcome.bind_eq_ok_iff.mp hs
        obtain ⟨r, hr, -⟩ := Outcome.bind_eq_ok_iff.mp hs
        refine ⟨⟨_, rfl⟩, ?_⟩
        rintro _ ⟨⟩
        exact (outputRange_eq_ok_iff .oklab).mp ⟨r, hr⟩
      · rintro ⟨-, hstops⟩
        obtain ⟨r, hr⟩ := (outputRange_eq_ok_iff .oklab).mpr (hstops range rfl)
        dsimp only
        rw [hr]
        exact ⟨_, rfl⟩

/-! ## Configs -/

/-- The domain, the range and the method of interpolation are valid. Only continuous families are
particular about the last two. -/
structure IsReadable (c : CompleteScaleConfig α) (schemes : SchemeRegistry) : Prop where
  domain : ∀ entries, c.setting .domain = some entries → ∀ entry ∈ entries, c.CanPlace entry
  range : c.family.isContinuous = true →
    ∀ range, c.rangeOrScheme? schemes = some range → AreStops range
  method : c.family.isContinuous = true →
    ∀ method gamma, c.setting .interpolate = some (.params method gamma) →
      Text.lower method ∈ blendingMethods ++ missingMethods

/-- A domain that is not one of numbers makes a config unreadable. -/
theorem not_isReadable_of_numericDomain? (ht : c.family.isTime = false)
    (h : c.numericDomain? false = .error p) : ¬ c.IsReadable schemes := by
  intro hreadable
  obtain ⟨domain?, hok⟩ := numericDomain?_eq_ok_iff.mpr hreadable.domain
  rw [ht] at hok
  exact nomatch h.symm.trans hok

end CompleteScaleConfig

end VisualEncoding
