import VisualEncoding.Scale.Realization

/-!
# Configs that differ in one setting

`withSetting` changes one property of a config. What is read of the config through other properties does
not change.

The tables by which a property is asked for and cleared are those of reading and setting it
(`ScaleOptions.isSet_eq`, `ScaleOptions.clear_eq`). So a round of the loop that drops the unsupported settings
leaves all but its own property alone, which carries over to any number of rounds by induction
(`ScaleOptions.setting_foldl_dropUnsupported`):

> `ScaleOptions.setting_restrictedTo`: the loop drops what is not supported and nothing else.
-/

namespace VisualEncoding

variable {α : Type} {p q : ScaleProperty}

theorem ScaleProperty.mem_all (p : ScaleProperty) : p ∈ all := by
  cases p <;> decide

namespace ScaleOptions

variable {o o' : ScaleOptions α} {f : ScaleFamily}

@[simp] theorem setting_empty (p : ScaleProperty) : (empty : ScaleOptions α).setting p = none := by
  cases p <;> rfl

@[simp] theorem setting_set_self (o : ScaleOptions α) (value : Option (Setting α p)) :
    (o.set p value).setting p = value := by
  cases p <;> rfl

theorem setting_set_of_ne (o : ScaleOptions α) (h : q ≠ p) (value : Option (Setting α p)) :
    (o.set p value).setting q = o.setting q := by
  cases p <;> cases q <;> first | rfl | exact absurd rfl h

/-- The properties are all that options hold. -/
theorem ext_setting (h : ∀ p, o.setting p = o'.setting p) : o = o' :=
  ScaleOptions.ext (h .domain) (h .range) (h .reverse) (h .clamp) (h .nice) (h .zero) (h .round)
    (h .interpolate) (h .padding) (h .paddingInner) (h .paddingOuter) (h .align) (h .scheme)
    (h .colorGroup) (h .bins) (h .base) (h .exponent) (h .constant)

theorem isSet_eq (o : ScaleOptions α) (p : ScaleProperty) : o.isSet p = (o.setting p).isSome := by
  cases p <;> rfl

theorem clear_eq (o : ScaleOptions α) (p : ScaleProperty) : o.clear p = o.set p none := by
  cases p <;> rfl

/-! ## The loop that drops settings -/

/-- A round of the loop is about its own property. -/
theorem setting_dropUnsupported (o : ScaleOptions α) (f : ScaleFamily) (p q : ScaleProperty) :
    (dropUnsupported f o p).setting q = if q = p ∧ f.supports q = false then none else o.setting q := by
  unfold dropUnsupported
  rw [isSet_eq, clear_eq]
  by_cases hq : q = p
  · subst hq
    cases f.supports q <;> cases hset : o.setting q <;> simp [hset]
  · simp only [hq, false_and, if_false]
    split
    · exact setting_set_of_ne o hq none
    · rfl

/-- After some rounds those properties are gone that have come up and are not supported. -/
theorem setting_foldl_dropUnsupported (o : ScaleOptions α) (f : ScaleFamily) (order : List ScaleProperty)
    (q : ScaleProperty) :
    (order.foldl (dropUnsupported f) o).setting q
      = if q ∈ order ∧ f.supports q = false then none else o.setting q := by
  induction order generalizing o with
  | nil => exact (if_neg fun h => nomatch h.1).symm
  | cons p order ih =>
    rw [List.foldl_cons, ih (dropUnsupported f o p), setting_dropUnsupported]
    by_cases hs : f.supports q = false
    · by_cases hq : q = p
      · -- a property that comes up again is gone already
        rw [if_pos (c := q = p ∧ _) ⟨hq, hs⟩, ite_self, if_pos ⟨List.mem_cons.mpr (Or.inl hq), hs⟩]
      · simp only [List.mem_cons, hq, hs, false_or, false_and, if_false]
    · rw [if_neg fun h => hs h.2, if_neg fun h => hs h.2, if_neg fun h => hs h.2]

theorem setting_restrictedTo (o : ScaleOptions α) (f : ScaleFamily) (p : ScaleProperty) :
    (o.restrictedTo f).setting p = if f.supports p then o.setting p else none := by
  unfold restrictedTo
  rw [setting_foldl_dropUnsupported]
  cases f.supports p with
  | true => rw [if_neg fun h => nomatch h.2]; rfl
  | false => rw [if_pos ⟨ScaleProperty.mem_all p, rfl⟩]; rfl

end ScaleOptions

namespace CompleteScaleConfig

variable {c : CompleteScaleConfig α}

/-- The config with another setting of one property. -/
def withSetting (c : CompleteScaleConfig α) (p : ScaleProperty) (value : Setting α p) :
    CompleteScaleConfig α :=
  { c with options := c.options.set p (some value) }

@[simp] theorem family_withSetting (value : Setting α p) : (c.withSetting p value).family = c.family := rfl

@[simp] theorem setting_withSetting_self (value : Setting α p) :
    (c.withSetting p value).setting p = some value :=
  ScaleOptions.setting_set_self _ _

theorem setting_withSetting_of_ne (h : q ≠ p) (value : Setting α p) :
    (c.withSetting p value).setting q = c.setting q :=
  ScaleOptions.setting_set_of_ne _ h _

theorem withSetting_comm (h : p ≠ q) (value : Setting α p) (value' : Setting α q) :
    (c.withSetting p value).withSetting q value' = (c.withSetting q value').withSetting p value := by
  refine CompleteScaleConfig.ext rfl (ScaleOptions.ext_setting fun r => ?_)
  show ((c.withSetting p value).withSetting q value').setting r = ((c.withSetting q value').withSetting p value).setting r
  by_cases hq : r = q
  · subst hq
    rw [setting_withSetting_self, setting_withSetting_of_ne h.symm, setting_withSetting_self]
  · by_cases hp : r = p
    · subst hp
      rw [setting_withSetting_of_ne hq, setting_withSetting_self, setting_withSetting_self]
    · rw [setting_withSetting_of_ne hq, setting_withSetting_of_ne hp, setting_withSetting_of_ne hp,
        setting_withSetting_of_ne hq]

@[simp] theorem isReversed_withSetting_reverse (on : Bool) :
    (c.withSetting .reverse on).isReversed = on := by
  unfold isReversed
  rw [setting_withSetting_self]
  cases on <;> rfl

theorem isReversed_withSetting_of_ne (h : p ≠ .reverse) (value : Setting α p) :
    (c.withSetting p value).isReversed = c.isReversed := by
  unfold isReversed
  rw [setting_withSetting_of_ne h.symm]

theorem orient_withSetting_reverse {β : Type} (on : Bool) (items : List β) :
    (c.withSetting .reverse on).orient items = if on then items.reverse else items := by
  unfold orient
  rw [isReversed_withSetting_reverse]

end CompleteScaleConfig

end VisualEncoding
