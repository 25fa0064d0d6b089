import VisualEncoding.Proofs.Scale.BandLayout
import VisualEncoding.Proofs.Scale.Realization
import VisualEncoding.Proofs.Scale.Settings

/-!
# Scales of categories

A config of categories with a domain becomes bands over the ends of its range, in the style that it asks for
(`band_of_entries`), or an ordinal scale of the session (`realize_of_ordinal`). The direction of the config has
a part in the order of the categories alone.
-/

namespace VisualEncoding.CompleteScaleConfig

variable {α : Type} [Scalar α] {c : CompleteScaleConfig α} {entries : List (DomainEntry α)}
  {values : List (Value α)}

/-! ## Bands -/

/-- The ends of the range of bands, those of the unit interval if no range is set. -/
def bandEnds (c : CompleteScaleConfig α) : Except (Problem α) (α × α) :=
  match c.setting .range with
  | none => .ok (0, 1)
  | some range => c.rangeEnds range

theorem bandEnds_of_range {range : List (Value α)} (h : c.setting .range = some range) :
    c.bandEnds = c.rangeEnds range := by
  unfold bandEnds
  rw [h]

theorem range_of_bandEnds_eq_error {p : Problem α} (h : c.bandEnds = .error p) :
    ∃ range, c.setting .range = some range ∧ c.rangeEnds range = .error p := by
  cases hrange : c.setting .range with
  | none =>
    unfold bandEnds at h
    rw [hrange] at h
    nomatch h
  | some range => exact ⟨range, rfl, (bandEnds_of_range hrange).symm.trans h⟩

theorem bandEnds_withSetting {p : ScaleProperty} (hp : p ≠ .range) (value : Setting α p) :
    (c.withSetting p value).bandEnds = c.bandEnds := by
  unfold bandEnds
  rw [setting_withSetting_of_ne hp.symm]
  rfl

/-- What a config of categories sets apart from the domain and the ends of the range. -/
def bandStyle (c : CompleteScaleConfig α) : Band α := c.spaced (Band.ofKind (c.family == .point))

theorem spaced_placed (c : CompleteScaleConfig α) (s : Band α) (domain : Categories α) (start stop : α) :
    c.spaced (s.placed domain start stop) = (c.spaced s).placed domain start stop := by
  unfold spaced
  dsimp only
  rw [Band.getD_placed Band.withAlign (fun _ _ => rfl),
    Band.getD_placed Band.withPadding (fun _ x => Band.withPadding_placed x),
    Band.getD_placed Band.withPaddingInner (fun _ x => Band.withPaddingInner_placed x),
    Band.getD_placed Band.withPaddingOuter (fun _ _ => rfl)]
  rfl

omit [Scalar α] in
theorem discreteDomain?_of_entries (hentries : c.setting .domain = some entries)
    (hvalues : List.Forall₂ (fun entry v => valueOfEntry entry = .ok v) entries values) :
    c.discreteDomain? = .ok (some (c.orient values)) := by
  unfold discreteDomain?
  rw [hentries]
  dsimp only
  rw [Outcome.mapM_eq_ok_iff.mpr hvalues]
  rfl

/-- With a domain nothing but the domain is reversed. -/
theorem bandStops_of_entries (hentries : c.setting .domain = some entries)
    (hvalues : List.Forall₂ (fun entry v => valueOfEntry entry = .ok v) entries values) :
    c.bandStops = c.bandEnds.map fun ends =>
      (Band.ofKind (c.family == .point)).placed (.ofList (c.orient values)) ends.1 ends.2 := by
  unfold bandStops bandEnds
  rw [discreteDomain?_of_entries hentries hvalues]
  simp only [bind, Except.bind, Option.isNone_some, Bool.and_false, if_neg Bool.false_ne_true]
  cases c.setting .range with
  | none => rfl
  | some range => cases hends : c.rangeEnds range <;> rfl

theorem band_of_entries (hentries : c.setting .domain = some entries)
    (hvalues : List.Forall₂ (fun entry v => valueOfEntry entry = .ok v) entries values) :
    c.band = c.bandEnds.map fun ends =>
      c.bandStyle.placed (.ofList (c.orient values)) ends.1 ends.2 := by
  unfold band
  rw [bandStops_of_entries hentries hvalues]
  cases c.bandEnds with
  | error p => rfl
  | ok ends => exact congrArg Except.ok (spaced_placed ..)

/-! ## Scales of categories in a session -/

/-- The categories of a domain whose entries can be read, the last first if it is reversed. -/
theorem categories?_of_entries (hentries : c.setting .domain = some entries)
    (hvalues : List.Forall₂ (fun entry v => valueOfEntry entry = .ok v) entries values) :
    c.categories? = .ok (.ofList (if c.isReversed then values.reverse else values)) := by
  unfold categories?
  rw [discreteDomain?_of_entries hentries hvalues]
  rfl

omit [Scalar α] in
theorem sharesColors_of_range_eq_none (hf : c.family = .ordinal) (hrange : c.setting .range = none) :
    c.sharesColors = true := by
  unfold sharesColors
  rw [hf, hrange]
  rfl

omit [Scalar α] in
theorem not_sharesColors_of_range {range : List (Value α)} (hrange : c.setting .range = some range) :
    c.sharesColors = false := by
  unfold sharesColors
  rw [hrange]
  exact Bool.and_false _

theorem plan_of_ordinalRange {range : List (Value α)} (schemes : SchemeRegistry) (hf : c.family = .ordinal)
    (hrange : c.setting .range = some range) :
    c.plan schemes = c.categories?.map fun domain => .ordinal { domain, range } := by
  unfold plan categories?
  rw [hf]
  dsimp only
  unfold ordinal
  rw [hrange]
  cases c.discreteDomain? <;> rfl

/-- An ordinal scale with a range of its own is taken in by the session. -/
theorem realize_of_ordinalRange {range : List (Value α)} {domain : Categories α} (hf : c.family = .ordinal)
    (hrange : c.setting .range = some range) (hdomain : c.categories? = .ok domain) (session : Session α) :
    c.realize.run.run session
      = (.ok (.ordinal session.ordinals.size),
          { session with ordinals := session.ordinals.push { domain, range } }) := by
  have hplan : c.plan session.colors.schemes = .ok (.ordinal { domain, range }) := by
    rw [plan_of_ordinalRange _ hf hrange, hdomain]
    rfl
  rw [realize_of_plan hplan, requested_of_not_sharesColors (not_sharesColors_of_range hrange)]
  rfl

theorem realize_of_ordinal (hf : c.family = .ordinal) (hentries : c.setting .domain = some entries)
    (hvalues : List.Forall₂ (fun entry v => valueOfEntry entry = .ok v) entries values)
    (session : Session α) :
    ∃ s session', c.realize.run.run session = (.ok s, session') ∧
      s.domain session' = (Categories.ofList (c.orient values)).values := by
  have hcategories : c.categories? = .ok (.ofList (c.orient values)) := categories?_of_entries hentries hvalues
  cases hrange : c.setting .range with
  | none =>
    have hshares := sharesColors_of_range_eq_none hf hrange
    exact ⟨_, _, realize_of_sharesColors hshares hcategories session, rfl⟩
  | some range =>
    refine ⟨_, _, realize_of_ordinalRange hf hrange hcategories session, ?_⟩
    show ((session.ordinals.push _)[session.ordinals.size]?.getD _).domain.values = _
    rw [Array.getElem?_push_size]
    rfl

end VisualEncoding.CompleteScaleConfig
