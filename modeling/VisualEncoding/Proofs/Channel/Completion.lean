import VisualEncoding.Proofs.Scale.Completion

/-!
# Complete definitions are the fixed points of completion

Completion decides the scale, the axis, the title and the legend of a field channel, and `toDef` writes
the decisions as a definition again. This file says which complete channels completion leaves alone.

`CompleteFieldDef.IsSettled` is the normal form: the scale holds nothing that its family does not support
and every default of its family, an axis stands only where the role has one, and it has the format of
the channel if it has no other. Options (the clock of inferred time scales) do not occur in it, since a
settled channel names its family or has no scale at all.

> `FieldDef.complete_isSettled`: whatever a definition says, its completion is settled.
> `CompleteFieldDef.IsSettled.complete_toDef`: a settled channel completes to itself, under any options.

The two together make completion idempotent (`ChannelDef.complete_toDef_complete`), and settled channels
exactly its fixed points (`CompleteFieldDef.complete_toDef_eq_iff`).
-/

namespace VisualEncoding

variable {α : Type}

/-! ## Settings of a family -/

namespace ScaleOptions

/-- What completion leaves of the settings of a family: only what the family supports, and each of its
defaults set to something. -/
structure IsSettled (o : ScaleOptions α) (f : ScaleFamily) : Prop where
  supported : ∀ p, (o.setting p).isSome → f.supports p = true
  defaulted : ∀ p, f.defaultsOn p = true → (o.setting p).isSome

/-- Completed settings are settled. -/
theorem completed_isSettled (o : ScaleOptions α) (f : ScaleFamily) : (o.completed f).IsSettled f := by
  constructor
  · intro p hset
    rw [completed_setting] at hset
    unfold settledSetting at hset
    split at hset
    next h => exact h
    next => nomatch hset
  · intro p hon
    rw [defaultsOn_eq (α := α), Bool.and_eq_true] at hon
    rw [completed_setting, settledSetting, if_pos hon.2, Option.isSome_or, hon.1, Bool.or_true]

/-- Settled settings have nothing to drop and nothing to add. -/
theorem IsSettled.completed_eq {o : ScaleOptions α} {f : ScaleFamily} (h : o.IsSettled f) :
    o.completed f = o := by
  refine ext_setting fun p => ?_
  rw [completed_setting]
  unfold settledSetting
  cases hset : o.setting p with
  | some v =>
    rw [if_pos (h.supported p (by rw [hset]; rfl))]
    rfl
  | none =>
    split
    next hp =>
      -- what is unset cannot be turned on, or it would be set
      refine Option.not_isSome_iff_eq_none.mp fun hon => ?_
      have hdefault := h.defaulted p (by rw [defaultsOn_eq (α := α), hp, Bool.and_true]; exact hon)
      rw [hset] at hdefault
      nomatch hdefault
    next => rfl

end ScaleOptions

/-! ## Scales -/

/-- The scale of a field channel is settled. -/
theorem FieldDef.completeScale_isSettled {d : FieldDef α} {role : ChannelRole} {isLocal : Bool}
    {c : CompleteScaleConfig α} (h : d.completeScale role isLocal = some c) :
    c.options.IsSettled c.family := by
  unfold FieldDef.completeScale at h
  obtain ⟨config, -, h⟩ := Option.bind_eq_some_iff.mp h
  obtain ⟨family, -, h⟩ := Option.bind_eq_some_iff.mp h
  cases Option.some.inj h
  exact ScaleOptions.completed_isSettled config.options family

/-- A settled scale, written into a definition, is read back as it is: the definition names the family,
so nothing is inferred. -/
theorem CompleteFieldDef.completeScale_toDef {d : CompleteFieldDef α} (role : ChannelRole)
    (isLocal : Bool) (h : ∀ c, d.scale = some c → c.options.IsSettled c.family) :
    d.toDef.completeScale role isLocal = d.scale := by
  cases hs : d.scale with
  | none => simp [FieldDef.completeScale, toDef, hs, Configurable.orDefault, Configurable.ofOption,
      Configurable.toOption]
  | some c =>
    have hread : d.toDef.completeScale role isLocal
        = some { family := c.family, options := c.options.completed c.family } := by
      simp [FieldDef.completeScale, toDef, hs, Configurable.orDefault, Configurable.ofOption,
        Configurable.toOption, CompleteScaleConfig.toConfig]
    rw [hread, (h c hs).completed_eq]

/-! ## Axes -/

variable [Scalar α]

/-- A complete axis leaves nothing open but its format. -/
theorem CompleteAxisConfig.complete_toConfig (axis : CompleteAxisConfig α) (role : ChannelRole)
    (title : String) (format : Option String) :
    axis.toConfig.complete role title format = { axis with format := axis.format.or format } :=
  rfl

/-! ## Field channels -/

namespace CompleteFieldDef

/-- What completion leaves of a field channel of a role. -/
structure IsSettled (d : CompleteFieldDef α) (role : ChannelRole) : Prop where
  scale : ∀ c, d.scale = some c → c.options.IsSettled c.family
  axis_role : d.axis.isSome → role.supportsAxis = true
  axis_format : ∀ axis, d.axis = some axis → axis.format.or d.format = axis.format

/-- A settled axis, written into a definition, is read back as it is. -/
theorem IsSettled.completeAxis_toDef {d : CompleteFieldDef α} {role : ChannelRole}
    (h : d.IsSettled role) : d.toDef.completeAxis role = d.axis := by
  unfold FieldDef.completeAxis
  cases ha : d.axis with
  | none => simp [toDef, ha, Configurable.orDefault, Configurable.ofOption, Configurable.toOption]
  | some axis =>
    have hformat : axis.format.or d.format = axis.format := h.axis_format axis ha
    have hdefault : Configurable.orDefault d.toDef.axis = some axis.toConfig := by
      simp [toDef, ha, Configurable.orDefault, Configurable.ofOption, Configurable.toOption]
    rw [if_pos (h.axis_role (by rw [ha]; rfl)), hdefault, Option.map_some,
      CompleteAxisConfig.complete_toConfig]
    show some { axis with format := axis.format.or d.format } = some axis
    rw [hformat]

/-- **A settled channel is a fixed point.** Written as a definition it completes to itself, whatever the
clock of inferred time scales. -/
theorem IsSettled.complete_toDef {d : CompleteFieldDef α} {role : ChannelRole} (h : d.IsSettled role)
    (isLocal : Bool) : d.toDef.complete role isLocal = d := by
  ext1
  case scale => exact completeScale_toDef role isLocal h.scale
  case axis => exact h.completeAxis_toDef
  all_goals rfl

end CompleteFieldDef

/-- Completion settles everything. -/
theorem FieldDef.complete_isSettled (d : FieldDef α) (role : ChannelRole) (isLocal : Bool) :
    (d.complete role isLocal).IsSettled role := by
  constructor
  · intro c hc
    exact completeScale_isSettled hc
  · intro hset
    change (d.completeAxis role).isSome at hset
    unfold completeAxis at hset
    split at hset
    next hrole => exact hrole
    next => exact absurd hset (by simp)
  · intro axis haxis
    change d.completeAxis role = some axis at haxis
    unfold completeAxis at haxis
    split at haxis
    next =>
      obtain ⟨config, -, hconfig⟩ := Option.map_eq_some_iff.mp haxis
      subst hconfig
      -- a label that takes the format of the channel takes it once
      show (config.format.or d.format).or d.format = config.format.or d.format
      rw [Option.or_assoc, Option.or_self]
    next => exact absurd haxis (by simp)

/-- The fixed points of completion are the settled channels. -/
theorem CompleteFieldDef.complete_toDef_eq_iff {d : CompleteFieldDef α} {role : ChannelRole}
    {isLocal : Bool} : d.toDef.complete role isLocal = d ↔ d.IsSettled role := by
  constructor
  · intro h
    rw [← h]
    exact d.toDef.complete_isSettled role isLocal
  · intro h
    exact h.complete_toDef isLocal

/-- **Completion is idempotent.** A completed definition, written as a definition and completed again
under other options, is the same complete definition: no default is filled in twice, no inferred time
scale changes its clock, and what is switched off stays off. -/
theorem ChannelDef.complete_toDef_complete (d : ChannelDef α) (role : ChannelRole)
    (isLocal isLocal' : Bool) :
    (d.complete role isLocal).toDef.complete role isLocal' = d.complete role isLocal := by
  cases d with
  | constant value => rfl
  | field d =>
    show CompleteChannelDef.field ((d.complete role isLocal).toDef.complete role isLocal') = _
    rw [(d.complete_isSettled role isLocal).complete_toDef isLocal']
    rfl

end VisualEncoding
