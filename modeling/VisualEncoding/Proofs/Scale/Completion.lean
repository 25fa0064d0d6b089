import VisualEncoding.Channel.Completion
import VisualEncoding.Proofs.Scale.Settings

/-!
# The loop that completes a scale

Completion goes through the properties of a scale in turn and clears those that are set and not supported;
then it turns `nice`, `clamp` and `zero` on where they mean something and are still open. Both change the
options step by step, so what a property comes out as could depend on the others. It does not: all rounds of
the loop together drop what is not supported and no more (`ScaleOptions.setting_restrictedTo`), and each
default looks at its own property only (`ScaleOptions.setting_withDefaults`).

> `ScaleOptions.completed_setting`: a property is settled by the family and its own setting alone.
> `FieldDef.completeScale_decides`: the scale of a field channel, property by property.
-/

namespace VisualEncoding

variable {α : Type}

/-- What a property is set to when it is turned on. Not every property can be. -/
def Setting.on? : (p : ScaleProperty) → Option (Setting α p)
  | .nice => some (.flag true)
  | .clamp | .zero => some true
  | _ => none

namespace ScaleOptions

variable {f : ScaleFamily} {p q : ScaleProperty}

/-- What becomes of the setting of a property. -/
def settledSetting (f : ScaleFamily) (p : ScaleProperty) (value : Option (Setting α p)) : Option (Setting α p) :=
  if f.supports p then value.or (Setting.on? p) else none

/-- What is on by default is supported. -/
theorem supports_of_defaultsOn (h : f.defaultsOn p = true) : f.supports p = true := by
  unfold ScaleFamily.defaultsOn at h
  exact (Bool.and_eq_true_iff.mp h).2

/-- The defaults of a family are those of its properties that can be turned on. -/
theorem defaultsOn_eq (f : ScaleFamily) (p : ScaleProperty) :
    f.defaultsOn p = ((Setting.on? p : Option (Setting α p)).isSome && f.supports p) := by
  cases p <;> rfl

/-! ## What is turned on -/

theorem setting_turnOn_self (o : ScaleOptions α) (f : ScaleFamily) (value : Setting α p) :
    (o.turnOn f p value).setting p = (o.setting p).or (if f.defaultsOn p then some value else none) := by
  unfold turnOn
  rw [isSet_eq]
  cases hset : o.setting p with
  | some given => rw [Option.isSome_some, Bool.not_true, Bool.and_false, if_neg Bool.false_ne_true, hset]; rfl
  | none =>
    rw [Option.isSome_none, Bool.not_false, Bool.and_true, Option.none_or]
    split
    · exact setting_set_self o (some value)
    · exact hset

theorem setting_turnOn_of_ne (o : ScaleOptions α) (f : ScaleFamily) (h : q ≠ p) (value : Setting α p) :
    (o.turnOn f p value).setting q = o.setting q := by
  unfold turnOn
  split
  · exact setting_set_of_ne o h (some value)
  · rfl

/-- The three defaults are about three properties, so each finds its own as it was. -/
theorem setting_withDefaults (o : ScaleOptions α) (f : ScaleFamily) (p : ScaleProperty) :
    (o.withDefaults f).setting p = (o.setting p).or (if f.defaultsOn p then Setting.on? p else none) := by
  unfold withDefaults
  by_cases hzero : p = .zero
  · subst hzero
    rw [setting_turnOn_self, setting_turnOn_of_ne _ _ (by decide), setting_turnOn_of_ne _ _ (by decide)]
    rfl
  rw [setting_turnOn_of_ne _ _ hzero]
  by_cases hclamp : p = .clamp
  · subst hclamp
    rw [setting_turnOn_self, setting_turnOn_of_ne _ _ (by decide)]
    rfl
  rw [setting_turnOn_of_ne _ _ hclamp]
  by_cases hnice : p = .nice
  · subst hnice
    rw [setting_turnOn_self]
    rfl
  rw [setting_turnOn_of_ne _ _ hnice]
  have hnone : (Setting.on? p : Option (Setting α p)) = none := by
    cases p <;> first | rfl | contradiction
  rw [hnone, ite_self, Option.or_none]

/-- **Completion decides each property by itself.** -/
theorem completed_setting (o : ScaleOptions α) (f : ScaleFamily) (p : ScaleProperty) :
    (o.completed f).setting p = settledSetting f p (o.setting p) := by
  unfold completed settledSetting
  rw [setting_withDefaults, setting_restrictedTo]
  rw [defaultsOn_eq (α := α)]
  cases f.supports p with
  | true => rw [if_pos rfl, if_pos rfl, Bool.and_true]; cases Setting.on? p <;> rfl
  | false => rw [Bool.and_false]; rfl

end ScaleOptions

namespace FieldDef

/-- The scale that a definition asks for, with nothing set if it does not mention it. There is none if it is
switched off. -/
def askedScale? (d : FieldDef α) : Option (ScaleConfig α) := Configurable.orDefault d.scale

/-- The family that a definition names. -/
def namedFamily? (d : FieldDef α) : Option ScaleFamily := d.askedScale?.bind (·.family)

/-- What a definition sets a property of the scale to. -/
def askedSetting (d : FieldDef α) (p : ScaleProperty) : Option (Setting α p) :=
  d.askedScale?.bind fun config => config.options.setting p

theorem askedScale?_eq_none_iff {d : FieldDef α} : d.askedScale? = none ↔ d.scale = some .disabled := by
  unfold askedScale? Configurable.orDefault
  cases d.scale with
  | none => exact ⟨nofun, nofun⟩
  | some part =>
    cases part with
    | disabled => exact ⟨fun _ => rfl, fun _ => rfl⟩
    | enabled => exact ⟨nofun, nofun⟩

variable {d : FieldDef α} {role : ChannelRole} {isLocal : Bool}

/-- There is no scale if it is switched off, or if no family is named and none can be inferred. -/
theorem completeScale_eq_none_iff :
    d.completeScale role isLocal = none ↔
      d.scale = some .disabled ∨
        d.namedFamily? = none ∧ ScaleFamily.infer? role d.type d.bin isLocal = none := by
  rw [← askedScale?_eq_none_iff]
  show (d.askedScale?.bind fun config => _) = none ↔ _
  unfold namedFamily?
  cases d.askedScale? with
  | none => exact ⟨fun _ => Or.inl rfl, fun _ => rfl⟩
  | some config =>
    show ((config.family.or _).bind _ = none) ↔ _
    rw [Option.bind_some]
    cases config.family with
    | some family => exact ⟨nofun, by rintro (h | ⟨h, -⟩) <;> nomatch h⟩
    | none =>
      rw [Option.none_or]
      cases ScaleFamily.infer? role d.type d.bin isLocal with
      | some family => exact ⟨nofun, by rintro (h | ⟨-, h⟩) <;> nomatch h⟩
      | none => exact ⟨fun _ => Or.inr ⟨rfl, rfl⟩, fun _ => rfl⟩

/-- A scale is of the family that is named, or else inferred, with the options that are asked for completed. -/
theorem exists_asked_of_completeScale {c : CompleteScaleConfig α} (h : d.completeScale role isLocal = some c) :
    ∃ config, d.askedScale? = some config ∧
      config.family.or (ScaleFamily.infer? role d.type d.bin isLocal) = some c.family ∧
      c.options = config.options.completed c.family := by
  obtain ⟨config, hconfig, h⟩ := Option.bind_eq_some_iff.mp h
  obtain ⟨family, hfamily, h⟩ := Option.bind_eq_some_iff.mp h
  cases Option.some.inj h
  exact ⟨config, hconfig, hfamily, rfl⟩

theorem setting_of_completeScale {c : CompleteScaleConfig α} (h : d.completeScale role isLocal = some c)
    (p : ScaleProperty) : c.setting p = ScaleOptions.settledSetting c.family p (d.askedSetting p) := by
  obtain ⟨config, hconfig, -, hoptions⟩ := exists_asked_of_completeScale h
  unfold CompleteScaleConfig.setting askedSetting
  rw [hoptions, ScaleOptions.completed_setting, hconfig]
  rfl

/-- **Completion decides each property by itself.** There is no scale if it is switched off, or if no family
is named and none can be inferred. Else the scale is of the family that is named or inferred, and a property
that the family does not support is dropped, one that is asked for is set as asked, and of those that are left
open `nice`, `clamp` and `zero` are turned on and no others are set. A property comes out the same in all
definitions that come to the same family and ask the same of this one property. -/
theorem completeScale_decides (d : FieldDef α) (role : ChannelRole) (isLocal : Bool) :
    (d.completeScale role isLocal = none ↔
      d.scale = some .disabled ∨
        d.namedFamily? = none ∧ ScaleFamily.infer? role d.type d.bin isLocal = none) ∧
    ∀ c, d.completeScale role isLocal = some c →
      d.namedFamily?.or (ScaleFamily.infer? role d.type d.bin isLocal) = some c.family ∧
      (∀ p, c.setting p =
        if c.family.supports p then
          match d.askedSetting p with
          | some value => some value
          | none => Setting.on? p
        else none) ∧
      ∀ (d' : FieldDef α) (role' : ChannelRole) (isLocal' : Bool) (c' : CompleteScaleConfig α),
        d'.completeScale role' isLocal' = some c' → c'.family = c.family →
          ∀ p, d'.askedSetting p = d.askedSetting p → c'.setting p = c.setting p := by
  refine ⟨completeScale_eq_none_iff, fun c h => ?_⟩
  obtain ⟨config, hconfig, hfamily, hoptions⟩ := exists_asked_of_completeScale h
  refine ⟨?_, fun p => ?_, fun d' role' isLocal' c' h' hsame p hasked => ?_⟩
  · unfold namedFamily?
    rw [hconfig]
    exact hfamily
  · rw [setting_of_completeScale h]
    unfold ScaleOptions.settledSetting
    cases d.askedSetting p <;> rfl
  · rw [setting_of_completeScale h, setting_of_completeScale h', hsame, hasked]

/-- Categories on a band scale that is asked for a base and for clamping, which bands do not have. -/
def bandsWithBase : FieldDef Nat where
  field := "x"
  type := .nominal
  scale := some (.enabled
    { family := some .band
      options := (((ScaleOptions.empty.set .base (some 2)).set .clamp (some true)).set .paddingInner (some 3)) })

/-- The padding stays, the base and the clamping are dropped, and nothing is turned on. -/
theorem completeScale_decides_bandsWithBase :
    ∃ c, bandsWithBase.completeScale .x false = some c ∧ c.family = .band ∧
      c.setting .paddingInner = some 3 ∧ c.setting .base = none ∧ c.setting .clamp = none ∧
      c.setting .nice = none := by
  obtain ⟨-, hall⟩ := completeScale_decides bandsWithBase .x false
  obtain ⟨hfamily, hsetting, -⟩ := hall _ rfl
  exact ⟨_, rfl, (Option.some.inj hfamily).symm, hsetting .paddingInner, hsetting .base, hsetting .clamp,
    hsetting .nice⟩

end FieldDef

end VisualEncoding
