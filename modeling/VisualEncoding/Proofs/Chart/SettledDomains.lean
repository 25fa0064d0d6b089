import VisualEncoding.Proofs.Chart.BoundChannels
import VisualEncoding.Proofs.Session.FittingOrder

/-!
# Fitting settles open domains

Fitting a chart gives every scale that leaves its domain open the domain that its channel observes
(`CompleteChannelDef.settled`) and changes nothing else that the chart shows of itself. No domain is open after
that, so fitting once more, to whatever dataset, does nothing:

> `Encoder.fit_settles`: a fitted chart has the names, groups and legends from before, its definitions are the
> settled ones, and fitting it again leaves it and the session as they are.

Encoders are fitted in place, one after the other. After some of them those places are settled and the others
hold what they held (`ChannelEncoder.fitEach_settles`), in whichever order it is done.
-/

namespace VisualEncoding

variable {α : Type} [Scalar α] {dataset : List (Datum α)}

/-! ## Definitions -/

omit [Scalar α] in
theorem CompleteScaleConfig.isOpen_withDomain (config : CompleteScaleConfig α) (values : List (Value α)) :
    (config.withDomain values).isOpen = false := by
  show ((config.withSetting .domain (values.map .value)).setting .domain).isNone = false
  rw [setting_withSetting_self]
  rfl

namespace CompleteChannelDef

/-- The definition in which a scale that left its domain open has the domain that the channel observes. -/
def settled (dataset : List (Datum α)) (d : CompleteChannelDef α) : CompleteChannelDef α :=
  match d with
  | .constant v => .constant v
  | .field f => .field { f with
      scale := f.scale.map fun config =>
        if config.isOpen then config.withDomain (d.observedDomain dataset) else config }

variable {d d' : CompleteChannelDef α}

theorem settled_of_fitted (h : d.fitted? dataset = some d') : d.settled dataset = d' := by
  cases d with
  | constant v => nomatch h
  | field f =>
    obtain ⟨config, hconfig, rfl⟩ := Option.map_eq_some_iff.mp h
    obtain ⟨hscale, hopen⟩ := Option.filter_eq_some_iff.mp hconfig
    unfold settled
    dsimp only
    rw [hscale, Option.map_some, if_pos hopen]

theorem settled_of_not_fitted (h : d.fitted? dataset = none) : d.settled dataset = d := by
  cases d with
  | constant v => rfl
  | field f =>
    have hclosed := Option.filter_eq_none_iff.mp (Option.map_eq_none_iff.mp h)
    unfold settled
    dsimp only
    cases hscale : f.scale with
    | none => rw [Option.map_none, ← hscale]
    | some config => rw [Option.map_some, if_neg (hclosed config hscale), ← hscale]

/-- A settled definition leaves no domain open. -/
theorem fitted?_settled (d : CompleteChannelDef α) (dataset dataset' : List (Datum α)) :
    (d.settled dataset).fitted? dataset' = none := by
  cases d with
  | constant v => rfl
  | field f =>
    refine Option.map_eq_none_iff.mpr (Option.filter_eq_none_iff.mpr ?_)
    intro config hconfig
    obtain ⟨before, -, rfl⟩ := Option.map_eq_some_iff.mp hconfig
    by_cases hopen : before.isOpen = true
    · rw [if_pos hopen, CompleteScaleConfig.isOpen_withDomain]
      exact Bool.false_ne_true
    · rw [if_neg hopen]
      exact hopen

theorem settled_settled (d : CompleteChannelDef α) (dataset dataset' : List (Datum α)) :
    (d.settled dataset).settled dataset' = d.settled dataset :=
  settled_of_not_fitted (d.fitted?_settled dataset dataset')

theorem fieldName?_settled (d : CompleteChannelDef α) (dataset : List (Datum α)) :
    (d.settled dataset).fieldName? = d.fieldName? := by
  cases d <;> rfl

theorem type?_settled (d : CompleteChannelDef α) (dataset : List (Datum α)) :
    (d.settled dataset).type? = d.type? := by
  cases d <;> rfl

end CompleteChannelDef

/-! ## Encoders -/

namespace ChannelEncoder

/-- An encoder of the same channel for the settled definition. -/
structure SettledTo (dataset : List (Datum α)) (e e' : ChannelEncoder α) : Prop where
  name : e'.name = e.name
  role : e'.role = e.role
  isLocal : e'.isLocal = e.isLocal
  definition : e'.definition = e.definition.settled dataset

variable {e e' e'' : ChannelEncoder α} {es es' : List (ChannelEncoder α)} {order : List Nat} {c after : Session α}

theorem SettledTo.trans (h : e.SettledTo dataset e') (h' : e'.SettledTo dataset e'') : e.SettledTo dataset e'' where
  name := h'.name.trans h.name
  role := h'.role.trans h.role
  isLocal := h'.isLocal.trans h.isLocal
  definition := by
    rw [h'.definition, h.definition]
    exact e.definition.settled_settled dataset dataset

theorem SettledTo.isGroupBy_eq (h : e.SettledTo dataset e') : e'.isGroupBy = e.isGroupBy := by
  unfold isGroupBy
  rw [h.definition, h.role, CompleteChannelDef.type?_settled]

theorem SettledTo.fieldName?_eq (h : e.SettledTo dataset e') :
    e'.definition.fieldName? = e.definition.fieldName? := by
  rw [h.definition]
  exact e.definition.fieldName?_settled dataset

theorem SettledTo.hasLegend_eq (h : e.SettledTo dataset e') : e'.hasLegend = e.hasLegend := by
  unfold hasLegend
  rw [h.definition, h.role]
  cases e.definition <;> rfl

/-- There is nothing left to be fitted. -/
theorem SettledTo.fit (h : e.SettledTo dataset e') (dataset' : List (Datum α)) : e'.fit dataset' = pure e' := by
  refine fit_of_not_fitted ?_
  rw [h.definition]
  exact e.definition.fitted?_settled dataset dataset'

theorem settledTo_of_fit (h : (e.fit dataset).run.run c = (.ok e', after)) : e.SettledTo dataset e' := by
  cases hfitted : e.definition.fitted? dataset with
  | none =>
    rw [fit_of_not_fitted hfitted] at h
    cases h
    exact ⟨rfl, rfl, rfl, (CompleteChannelDef.settled_of_not_fitted hfitted).symm⟩
  | some definition =>
    rw [fit_of_fitted hfitted] at h
    rw [eq_of_ofComplete h]
    exact ⟨rfl, rfl, rfl, (CompleteChannelDef.settled_of_fitted hfitted).symm⟩

/-! ## Encoders fitted in place -/

/-- The encoders with the numbers of an order are settled, the others are as they were. -/
def SettledAt (dataset : List (Datum α)) (order : List Nat) (es es' : List (ChannelEncoder α)) : Prop :=
  es'.length = es.length ∧ ∀ j e, es[j]? = some e →
    ∃ e', es'[j]? = some e' ∧ (j ∈ order → e.SettledTo dataset e') ∧ (j ∉ order → e' = e)

theorem fitAt_settles {i : Nat} (h : (fitAt dataset es i).run.run c = (.ok es', after)) :
    SettledAt dataset [i] es es' := by
  cases he : es[i]? with
  | none =>
    rw [fitAt_of_none he] at h
    cases h
    refine ⟨rfl, fun j e hj => ⟨e, hj, fun hmem => ?_, fun _ => rfl⟩⟩
    rw [List.mem_singleton.mp hmem, he] at hj
    nomatch hj
  | some e =>
    rw [fitAt_of_getElem? he] at h
    obtain ⟨e', c', hfit, h⟩ := Action.run_bind_eq_ok_iff.mp h
    cases h
    have hset := settledTo_of_fit hfit
    refine ⟨List.length_set, fun j before hj => ?_⟩
    by_cases hji : j = i
    · subst hji
      cases he.symm.trans hj
      obtain ⟨hlt, -⟩ := List.getElem?_eq_some_iff.mp he
      exact ⟨e', List.getElem?_set_self hlt, fun _ => hset, fun hne => absurd (List.mem_singleton.mpr rfl) hne⟩
    · exact ⟨before, (List.getElem?_set_ne (Ne.symm hji)).trans hj, fun hmem => absurd (List.mem_singleton.mp hmem) hji,
        fun _ => rfl⟩

/-- Fitting settles the encoders of the order. The induction is on the order; an encoder that comes up again is
settled already. -/
theorem fitEach_settles (h : (fitEach dataset order es).run.run c = (.ok es', after)) :
    SettledAt dataset order es es' := by
  induction order generalizing es c with
  | nil =>
    cases h
    exact ⟨rfl, fun j e hj => ⟨e, hj, fun hmem => (nomatch hmem), fun _ => rfl⟩⟩
  | cons i order ih =>
    unfold fitEach at h
    rw [List.foldlM_cons] at h
    obtain ⟨between, c', hfirst, hrest⟩ := Action.run_bind_eq_ok_iff.mp h
    obtain ⟨hlength, hplaces⟩ := fitAt_settles hfirst
    obtain ⟨hlength', hplaces'⟩ := ih hrest
    refine ⟨hlength'.trans hlength, fun j e hj => ?_⟩
    obtain ⟨e₁, hj₁, hsettled, hkept⟩ := hplaces j e hj
    obtain ⟨e₂, hj₂, hsettled', hkept'⟩ := hplaces' j e₁ hj₁
    refine ⟨e₂, hj₂, fun hmem => ?_, fun hmem => ?_⟩
    · by_cases hji : j = i
      · -- the first of the order may come up again
        have hset := hsettled (List.mem_singleton.mpr hji)
        by_cases hlater : j ∈ order
        · exact hset.trans (hsettled' hlater)
        · rw [hkept' hlater]
          exact hset
      · have hset := hsettled' ((List.mem_cons.mp hmem).resolve_left hji)
        rwa [hkept fun hi => hji (List.mem_singleton.mp hi)] at hset
    · rw [List.mem_cons, not_or] at hmem
      rw [hkept' hmem.2, hkept fun hi => hmem.1 (List.mem_singleton.mp hi)]

/-- If every encoder comes up, all are settled. -/
theorem SettledAt.forall₂ (h : SettledAt dataset order es es') (hall : ∀ j < es.length, j ∈ order) :
    List.Forall₂ (SettledTo dataset) es es' := by
  refine List.forall₂_iff_get.mpr ⟨h.1.symm, fun j hj hj' => ?_⟩
  obtain ⟨e', he', hsettled, -⟩ := h.2 j _ (List.getElem?_eq_getElem hj)
  rw [List.getElem?_eq_getElem hj'] at he'
  cases he'
  exact hsettled (hall j hj)

/-- Settled encoders stay as they are when they are fitted again. -/
theorem fitEach_of_settled (h : ∀ e ∈ es, e.fit dataset = pure e) (order : List Nat) :
    fitEach dataset order es = pure es := by
  induction order with
  | nil => rfl
  | cons i order ih =>
    have hfirst : fitAt dataset es i = pure es := by
      cases he : es[i]? with
      | none => exact fitAt_of_none he
      | some e =>
        obtain ⟨hlt, rfl⟩ := List.getElem?_eq_some_iff.mp he
        rw [fitAt_of_getElem? he, h _ (List.getElem_mem hlt), pure_bind, List.set_getElem_self]
    unfold fitEach at ih ⊢
    rw [List.foldlM_cons, hfirst, pure_bind, ih]

end ChannelEncoder

/-! ## Channels -/

/-- The encoders of a channel are settled one by one. -/
inductive ChannelEncoders.SettledTo (dataset : List (Datum α)) : ChannelEncoders α → ChannelEncoders α → Prop
  | single {e e' : ChannelEncoder α} (h : e.SettledTo dataset e') : SettledTo dataset (.single e) (.single e')
  | multiple {es es' : List (ChannelEncoder α)} (h : List.Forall₂ (ChannelEncoder.SettledTo dataset) es es') :
      SettledTo dataset (.multiple es) (.multiple es')

/-- The same channel with settled encoders. -/
structure EncodedChannel.SettledTo (dataset : List (Datum α)) (c c' : EncodedChannel α) : Prop where
  name : c'.name = c.name
  role : c'.role = c.role
  encoders : c.encoders.SettledTo dataset c'.encoders

variable {cs cs' : List (EncodedChannel α)} {es es' : List (ChannelEncoder α)}

theorem ChannelEncoders.refill_settles {es : ChannelEncoders α} {es' : List (ChannelEncoder α)}
    (h : List.Forall₂ (ChannelEncoder.SettledTo dataset) es.toList es') : es.SettledTo dataset (es.refill es') := by
  cases es with
  | single e =>
    cases h with
    | cons he hrest => exact .single he
  | multiple es => exact .multiple h

namespace EncodedChannel

/-- Settled encoders in the places of those of channels settle the channels. The induction is on the channels,
each of which takes as many encoders as it has. -/
theorem refillAll_settles
    (h : List.Forall₂ (ChannelEncoder.SettledTo dataset) (cs.flatMap fun c => c.encoders.toList) es') :
    List.Forall₂ (SettledTo dataset) cs (refillAll cs es') := by
  induction cs generalizing es' with
  | nil => exact .nil
  | cons c cs ih =>
    rw [List.flatMap_cons] at h
    have hfirst := List.forall₂_take c.encoders.toList.length h
    have hrest := List.forall₂_drop c.encoders.toList.length h
    rw [List.take_left] at hfirst
    rw [List.drop_left] at hrest
    exact .cons ⟨rfl, rfl, ChannelEncoders.refill_settles hfirst⟩ (ih hrest)

/-- Channels whose own encoders are put in their places stay as they are. -/
theorem refillAll_self (cs : List (EncodedChannel α)) :
    refillAll cs (cs.flatMap fun c => c.encoders.toList) = cs := by
  induction cs with
  | nil => rfl
  | cons c cs ih =>
    have hself : c.encoders.refill c.encoders.toList = c.encoders := by
      cases c.encoders <;> rfl
    rw [List.flatMap_cons, refillAll, List.take_left, List.drop_left, hself, ih]

theorem SettledTo.forall₂_toList {c c' : EncodedChannel α} (h : c.SettledTo dataset c') :
    List.Forall₂ (ChannelEncoder.SettledTo dataset) c.encoders.toList c'.encoders.toList := by
  have hencoders := h.encoders
  generalize c.encoders = before at hencoders ⊢
  generalize c'.encoders = after at hencoders ⊢
  cases hencoders with
  | single he => exact .cons he .nil
  | multiple hes => exact hes

/-- A legend takes the same from a settled channel. -/
theorem SettledTo.legendField?_eq {c c' : EncodedChannel α} (h : c.SettledTo dataset c') :
    Encoder.legendField? c' = Encoder.legendField? c := by
  have hencoders := h.encoders
  unfold Encoder.legendField?
  generalize c.encoders = before at hencoders ⊢
  generalize c'.encoders = after at hencoders ⊢
  cases hencoders with
  | @single e e' he =>
    show ((some e').filter fun e => e.hasLegend).bind (fun e => e.definition.fieldName?)
      = ((some e).filter fun e => e.hasLegend).bind fun e => e.definition.fieldName?
    rw [Option.filter_some, Option.filter_some, he.hasLegend_eq]
    cases e.hasLegend with
    | true => exact he.fieldName?_eq
    | false => rfl
  | multiple hes => rfl

end EncodedChannel

/-! ## Charts -/

namespace Encoder

variable {e e' : Encoder α} {order : List Nat} {c after : Session α}

/-- The same chart with settled channels. -/
def SettledTo (dataset : List (Datum α)) (e e' : Encoder α) : Prop :=
  List.Forall₂ (EncodedChannel.SettledTo dataset) e.channels e'.channels

theorem SettledTo.channelNames_eq (h : e.SettledTo dataset e') : e'.channelNames = e.channelNames := by
  unfold SettledTo at h
  unfold channelNames
  generalize e.channels = cs at h ⊢
  generalize e'.channels = cs' at h ⊢
  induction h with
  | nil => rfl
  | cons hc _ ih => rw [List.map_cons, List.map_cons, hc.name, ih]

theorem SettledTo.forall₂_encoders (h : e.SettledTo dataset e') :
    List.Forall₂ (ChannelEncoder.SettledTo dataset) e.encoders e'.encoders :=
  List.rel_flatMap h fun _ _ hc => hc.forall₂_toList

theorem SettledTo.groupBys_eq (h : e.SettledTo dataset e') : e'.groupBys = e.groupBys := by
  have hfields : ∀ {es es' : List (ChannelEncoder α)}, List.Forall₂ (ChannelEncoder.SettledTo dataset) es es' →
      (es'.filter fun c => c.isGroupBy).filterMap (fun c => c.definition.fieldName?)
        = (es.filter fun c => c.isGroupBy).filterMap fun c => c.definition.fieldName? := by
    intro es es' hes
    induction hes with
    | nil => rfl
    | cons hc _ ih =>
      rw [List.filter_cons, List.filter_cons, hc.isGroupBy_eq]
      split
      · rw [List.filterMap_cons, List.filterMap_cons, hc.fieldName?_eq, ih]
      · exact ih
  rw [Encoder.groupBys_eq, Encoder.groupBys_eq, hfields h.forall₂_encoders]

theorem SettledTo.legends_eq (h : e.SettledTo dataset e') : e'.legends = e.legends := by
  unfold SettledTo at h
  unfold legends
  generalize e.channels = cs at h ⊢
  generalize e'.channels = cs' at h ⊢
  generalize ([] : List (String × List String)) = legends
  induction h generalizing legends with
  | nil => rfl
  | cons hc _ ih =>
    rw [List.foldl_cons, List.foldl_cons, hc.legendField?_eq, hc.name]
    exact ih _

/-- A settled chart can be fitted again, in any order, and nothing happens. -/
theorem SettledTo.fitInOrder (h : e.SettledTo dataset e') (dataset' : List (Datum α)) (order : List Nat) :
    e'.fitInOrder dataset' order = pure e' := by
  have hsettled : ∀ x ∈ e'.encoders, x.fit dataset' = pure x := by
    intro x hx
    obtain ⟨before, -, hbefore⟩ := Outcome.exists_mem_of_forall₂ h.forall₂_encoders hx
    exact hbefore.fit dataset'
  unfold Encoder.fitInOrder
  rw [ChannelEncoder.fitEach_of_settled hsettled, pure_bind]
  exact congrArg (fun cs => pure (Encoder.mk cs)) (EncodedChannel.refillAll_self e'.channels)

/-- **Fitting settles the open domains and nothing else, and happens once.** Let the encoders of a chart be fitted to
a dataset, in any order in which each of them comes up. The fitted chart has the same names, groups and legends.
Channel by channel it has the same encoders for the same definitions, but that a field whose scale left its domain
open has the domain that it observes in the dataset. Fitting it once more, to any dataset and in any session, the
declared order or another, gives the very same chart and leaves the session with all colors as it is. -/
theorem fit_settles {fitted : Encoder α} (horder : order.Perm (List.range e.encoders.length))
    (hfit : (e.fitInOrder dataset order).run.run c = (.ok fitted, after)) :
    fitted.channelNames = e.channelNames ∧ fitted.groupBys = e.groupBys ∧ fitted.legends = e.legends ∧
      e.SettledTo dataset fitted ∧
      ∀ (again : List (Datum α)) (later : Session α),
        (fitted.fit again).run.run later = (.ok fitted, later) ∧
          ∀ order', (fitted.fitInOrder again order').run.run later = (.ok fitted, later) := by
  obtain ⟨es, c', hes, hrefill⟩ := Action.run_bind_eq_ok_iff.mp hfit
  cases hrefill
  have hall : ∀ j < e.encoders.length, j ∈ order := fun j hj => horder.mem_iff.mpr (List.mem_range.mpr hj)
  have hsettled : e.SettledTo dataset { channels := EncodedChannel.refillAll e.channels es } :=
    EncodedChannel.refillAll_settles ((ChannelEncoder.fitEach_settles hes).forall₂ hall)
  refine ⟨hsettled.channelNames_eq, hsettled.groupBys_eq, hsettled.legends_eq, hsettled, fun again later => ?_⟩
  have hagain : ∀ order',
      (Encoder.fitInOrder { channels := EncodedChannel.refillAll e.channels es } again order').run.run later
        = (.ok { channels := EncodedChannel.refillAll e.channels es }, later) := by
    intro order'
    rw [hsettled.fitInOrder]
    rfl
  exact ⟨(fitInOrder_range _ again later).symm.trans (hagain _), hagain⟩

/-- A chart of cities, its tooltips fitted before the rest. -/
theorem fit_settles_survey :
    let cities : List (Datum Float) :=
      [[("city", .string "Oslo"), ("note", .string "fjord")], [("city", .string "Rome")]]
    ∃ e session fitted after, (ofEncoding surveyChannels surveyEncoding false).run.run {} = (.ok e, session) ∧
      (e.fitInOrder cities [3, 2, 0, 1]).run.run session = (.ok fitted, after) ∧ e.SettledTo cities fitted ∧
      fitted.legends = [("city", ["color"])] ∧
      ∀ again later, (fitted.fit again).run.run later = (.ok fitted, later) := by
  intro cities
  obtain ⟨e, session, hmade, hlength, hlegends, fitted, after, hfit⟩ : ∃ e session,
      (ofEncoding surveyChannels surveyEncoding false).run.run {} = (.ok e, session) ∧ e.encoders.length = 4 ∧
        e.legends = [("city", ["color"])] ∧
        ∃ fitted after, (e.fitInOrder cities [3, 2, 0, 1]).run.run session = (.ok fitted, after) :=
    ⟨_, _, rfl, rfl, rfl, _, _, rfl⟩
  have horder : [3, 2, 0, 1].Perm (List.range e.encoders.length) := by
    rw [hlength]
    decide
  obtain ⟨-, -, hkept, hsettled, hagain⟩ := fit_settles horder hfit
  exact ⟨e, session, fitted, after, hmade, hfit, hsettled, hkept.trans hlegends,
    fun again later => (hagain again later).1⟩

end Encoder

end VisualEncoding
