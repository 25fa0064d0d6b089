import VisualEncoding.Chart.ChannelEncoder
import VisualEncoding.Proofs.Scale.Realization

/-!
# Making encoders

An encoder is made as its scale is: nothing else of a definition can go wrong, and nothing else touches the
session. Fitting makes it once more, over the domain that the dataset shows.
-/

namespace VisualEncoding.ChannelEncoder

variable {α : Type} [Scalar α]

/-- An encoder without a scale is made without the session. -/
theorem ofComplete_of_none {d : CompleteChannelDef α} (hscale : d.scale? = none) (name : String)
    (role : ChannelRole) (isLocal : Bool) (c : Session α) :
    (ofComplete name role d isLocal).run.run c
      = (.ok { name, role, definition := d, scale := none, formatter := formatterFor d isLocal, isLocal },
          c) := by
  unfold ofComplete
  rw [hscale]
  rfl

/-- An encoder with a scale is made as its scale is. -/
theorem ofComplete_of_some {d : CompleteChannelDef α} {config : CompleteScaleConfig α}
    (hscale : d.scale? = some config) (name : String) (role : ChannelRole) (isLocal : Bool)
    (c : Session α) :
    (ofComplete name role d isLocal).run.run c
      = ((config.realize.run.run c).1.map fun s =>
          { name, role, definition := d, scale := some s, formatter := formatterFor d isLocal, isLocal },
          (config.realize.run.run c).2) := by
  unfold ofComplete
  rw [hscale, ExceptT.run_bind]
  simp only [Option.mapM_some, ExceptT.run_map, StateT.run_bind, StateT.run_map]
  generalize config.realize.run.run c = result
  obtain ⟨outcome, session⟩ := result
  cases outcome with
  | ok s => rfl
  | error p => rfl

variable {e : ChannelEncoder α} {dataset : List (Datum α)} {d : CompleteChannelDef α} {name : String}
  {role : ChannelRole} {isLocal : Bool} {config : CompleteScaleConfig α} {session after : Session α}

/-- An encoder is made if its scale has a plan. -/
theorem exists_ofComplete_iff (hscale : d.scale? = some config) :
    (∃ e after, (ofComplete name role d isLocal).run.run session = (.ok e, after)) ↔
      ∃ plan, config.plan session.colors.schemes = .ok plan := by
  rw [ofComplete_of_some hscale]
  cases hplan : config.plan session.colors.schemes with
  | ok plan =>
    rw [CompleteScaleConfig.realize_of_plan hplan]
    exact ⟨fun _ => ⟨plan, rfl⟩, fun _ => ⟨_, _, rfl⟩⟩
  | error p =>
    rw [CompleteScaleConfig.realize_of_error hplan]
    exact ⟨fun ⟨_, _, h⟩ => (nomatch h), fun ⟨_, h⟩ => (nomatch h)⟩

/-- All of an encoder but its scale is settled before it is made. -/
theorem eq_of_ofComplete (h : (ofComplete name role d isLocal).run.run session = (.ok e, after)) :
    e = { name, role, definition := d, scale := e.scale, formatter := formatterFor d isLocal, isLocal } := by
  cases hscale : d.scale? with
  | none =>
    rw [ofComplete_of_none hscale] at h
    cases h
    rfl
  | some config =>
    rw [ofComplete_of_some hscale] at h
    obtain ⟨s, -, rfl⟩ := Outcome.map_eq_ok_iff.mp (congrArg Prod.fst h)
    rfl

/-- An encoder of a complete definition has that definition. -/
theorem definition_of_ofComplete
    (h : (ofComplete name role d isLocal).run.run session = (.ok e, after)) : e.definition = d := by
  rw [eq_of_ofComplete h]

/-- An encoder with a continuous scale leaves the session as it is. -/
theorem ofComplete_of_continuous {s : Continuous α} (hscale : d.scale? = some config)
    (hf : config.family.isContinuous = true) (hs : config.family ≠ .symlog)
    (hplan : config.continuous session.colors.schemes = .ok s) (name : String) (role : ChannelRole)
    (isLocal : Bool) :
    (ofComplete name role d isLocal).run.run session
      = (.ok { name, role, definition := d, scale := some (.continuous s),
               formatter := formatterFor d isLocal, isLocal }, session) := by
  rw [ofComplete_of_some hscale, CompleteScaleConfig.realize_of_isContinuous hf hs, hplan]
  rfl

theorem fit_of_fitted (h : e.definition.fitted? dataset = some d) :
    e.fit dataset = ofComplete e.name e.role d e.isLocal := by
  unfold fit
  rw [h]

/-- An encoder without a domain to be set stays as it is. -/
theorem fit_of_not_fitted (h : e.definition.fitted? dataset = none) : e.fit dataset = pure e := by
  unfold fit
  rw [h]

/-! ## Continuous scales -/

section Continuous

variable {d : FieldDef α} {c : CompleteScaleConfig α} {later : Session α} {e' : ChannelEncoder α} {s₀ s : Continuous α}
  {v : Value α}

/-- An encoder with a continuous scale that leaves its domain open gets the scale over what is observed. -/
theorem ofDef_fit_of_continuous (hscale : d.completeScale role isLocal = some c) (hopen : c.isOpen = true)
    (hf : c.family.isContinuous = true) (hs : c.family ≠ .symlog)
    (hmade : c.continuous session.colors.schemes = .ok s₀)
    (hfitted : (c.withDomain (CompleteChannelDef.observedDomain (.field (d.complete role isLocal)) dataset)).continuous
      later.colors.schemes = .ok s) (name : String) :
    ∃ e e', (ofDef name role (.field d) isLocal).run.run session = (.ok e, session) ∧
      (e.fit dataset).run.run later = (.ok e', later) ∧ e'.scale = some (.continuous s) ∧
      ∀ datum, e'.definition.valueIn datum = datum.get d.field := by
  have hrun := ofComplete_of_continuous (d := .field (d.complete role isLocal)) hscale hf hs hmade name role isLocal
  generalize hvalues : CompleteChannelDef.observedDomain (.field (d.complete role isLocal)) dataset = values at hfitted
  have hopened : CompleteChannelDef.fitted? (.field (d.complete role isLocal)) dataset
      = some (.field { d.complete role isLocal with scale := some (c.withDomain values) }) := by
    unfold CompleteChannelDef.fitted?
    dsimp only
    rw [show (d.complete role isLocal).scale = some c from hscale, Option.filter_some, if_pos hopen, hvalues]
    rfl
  have hscale' : CompleteChannelDef.scale? (.field { d.complete role isLocal with scale := some (c.withDomain values) })
      = some (c.withDomain values) := rfl
  have hrefit := ofComplete_of_continuous hscale' hf hs hfitted name role isLocal
  refine ⟨_, _, hrun, Eq.trans ?_ hrefit, rfl, fun _ => rfl⟩
  rw [fit_of_fitted hopened]

theorem encodeValue_of_continuous (h : e.scale = some (.continuous s)) (v : Value α) :
    e.encodeValue v = pure (s.apply v) := by
  unfold encodeValue
  rw [h]
  rfl

/-- A record is shown as its value is. -/
theorem encodeDatum_congr {datum : Datum α} (hvalue : e.definition.valueIn datum = v)
    (hvalue' : e'.definition.valueIn datum = v) (h : e.encodeValue v = e'.encodeValue v) (fallback : Value α) :
    e.encodeDatum datum fallback = e'.encodeDatum datum fallback := by
  unfold encodeDatum
  rw [hvalue, hvalue']
  dsimp only
  rw [h]

end Continuous

end VisualEncoding.ChannelEncoder
