import VisualEncoding.Chart.Encoder
import VisualEncoding.Proofs.Session.Clients
import VisualEncoding.Proofs.Session.Refitting

/-!
# Fitting in any order

The encoders of a chart are fitted one after the other, and each may make a table, give colors in one, or take in
an ordinal scale. As two of them can be exchanged (`Refit.exchange`), they can be fitted in any order:

> `ChannelEncoder.fitEach_perm`: all comes out the same up to the numbers of what is new.
> `Encoder.fit_in_any_order`: so nobody can tell in which order it was done.
-/

namespace VisualEncoding

variable {α : Type} [Scalar α]

/-- Entries at one place are replaced by related ones. -/
theorem forall₂_set {β γ : Type} {R : β → γ → Prop} {l : List β} {l' : List γ} (h : List.Forall₂ R l l') {b : β}
    {b' : γ} (hb : R b b') (i : Nat) : List.Forall₂ R (l.set i b) (l'.set i b') := by
  induction h generalizing i with
  | nil => exact .nil
  | cons ha hrest ih =>
    cases i with
    | zero => exact .cons hb hrest
    | succ i => exact .cons ha (ih i)

namespace ChannelEncoder

variable {dataset : List (Datum α)} {es es' : List (ChannelEncoder α)} {e e' : ChannelEncoder α} {i j : Nat}
  {order order' : List Nat} {c c' d : Session α} {f : Renumbering}

/-- Fits the encoder with a number in its place. -/
def fitAt (dataset : List (Datum α)) (es : List (ChannelEncoder α)) (i : Nat) : Action α (List (ChannelEncoder α)) :=
  match es[i]? with
  | some e => return es.set i (← e.fit dataset)
  | none => return es

/-- Fits encoders in some order, each in its place. -/
def fitEach (dataset : List (Datum α)) (order : List Nat) (es : List (ChannelEncoder α)) :
    Action α (List (ChannelEncoder α)) :=
  order.foldlM (fitAt dataset) es

theorem fitAt_of_getElem? (he : es[i]? = some e) :
    fitAt dataset es i = (do return es.set i (← e.fit dataset)) := by
  unfold fitAt
  rw [he]

theorem fitAt_of_none (he : es[i]? = none) : fitAt dataset es i = pure es := by
  unfold fitAt
  rw [he]

theorem run_fitAt (he : es[i]? = some e) (hfit : (e.fit dataset).run.run c = (.ok e', d)) :
    (fitAt dataset es i).run.run c = (.ok (es.set i e'), d) := by
  rw [fitAt_of_getElem? he, Action.run_bind_of_ok hfit]
  rfl

/-! ## In related sessions -/

/-- The same encoders in order, up to a renumbering. -/
def AllRenumbered (f : Renumbering) (c : Session α) (es es' : List (ChannelEncoder α)) : Prop :=
  List.Forall₂ (Renumbered f c) es es'

theorem AllRenumbered.mono {g : Renumbering} (h : AllRenumbered f c es es') (hfg : g.AgreeOn c f)
    (hgrows : c.Grows d) : AllRenumbered g d es es' :=
  List.Forall₂.imp (fun _ _ he => he.mono hfg hgrows) h

theorem AllRenumbered.trans {g : Renumbering} {es'' : List (ChannelEncoder α)} (h : AllRenumbered f c es es')
    (h' : AllRenumbered g c' es' es'') : AllRenumbered (g.comp f) c es es'' := by
  unfold AllRenumbered at h h' ⊢
  induction h generalizing es'' with
  | nil =>
    cases h'
    exact .nil
  | cons he _ ih =>
    cases h' with
    | cons he' hrest' => exact .cons (he.trans he') (ih hrest')

theorem AllRenumbered.refl (h : ∀ e ∈ es, e.IsIn c) : AllRenumbered {} c es es :=
  List.forall₂_same.mpr fun e he => ⟨h e he, e.renumber_same.symm⟩

theorem fitAt_embeds (h : c.Embeds f c') (hes : AllRenumbered f c es es') (i : Nat) :
    Action.Embeds AllRenumbered (fitAt dataset es i) (fitAt dataset es' i) f c c' := by
  rcases Client.getElem?_of_forall₂ hes i with ⟨e, e', he, he', hin, rfl⟩ | ⟨he, he'⟩
  · rw [fitAt_of_getElem? he, fitAt_of_getElem? he']
    refine (fit_embeds h hin dataset).bind fun g b b' d d' hold hgrows hsession hb => ?_
    exact .pure hsession (forall₂_set (hes.mono hold hgrows) hb i)
  · rw [fitAt_of_none he, fitAt_of_none he']
    exact .pure h hes

/-- Fitted in the same order, encoders come out the same in related sessions. The induction is on the order. -/
theorem fitEach_embeds (h : c.Embeds f c') (hes : AllRenumbered f c es es') (order : List Nat) :
    Action.Embeds AllRenumbered (fitEach dataset order es) (fitEach dataset order es') f c c' := by
  induction order generalizing es es' f c c' with
  | nil => exact .pure h hes
  | cons i order ih =>
    unfold fitEach
    rw [List.foldlM_cons, List.foldlM_cons]
    exact (fitAt_embeds h hes i).bind fun g b b' d d' _ _ hsession hb => ih hsession hb

/-! ## In another order -/

/-- Encoders that can be fitted, and do not give colors to different domains in the same table. -/
structure Fittable (dataset : List (Datum α)) (order : List Nat) (es : List (ChannelEncoder α)) (c : Session α) :
    Prop where
  consistent : c.colors.Consistent
  isIn : ∀ e ∈ es, e.IsIn c
  fits : ∀ i ∈ order, ∃ e e' d, es[i]? = some e ∧ (e.fit dataset).run.run c = (.ok e', d)
  agrees : ∀ i ∈ order, ∀ j ∈ order, ∀ e e' key values values', es[i]? = some e → es[j]? = some e' →
    e.requestedColors? c.colors.schemes dataset = some (key, values) →
    e'.requestedColors? c.colors.schemes dataset = some (key, values') → values = values'

namespace Fittable

/-- What fitting one of the encoders does. -/
theorem exists_refit (h : Fittable dataset order es c) (hi : i ∈ order) :
    ∃ e x, es[i]? = some e ∧ Refit.IsIn c x ∧
      (∀ d : Session α, d.colors.schemes = c.colors.schemes →
        (e.fit dataset).run.run d = (.ok (x.run d).1, (x.run d).2)) ∧
      ∀ frame scheme group domain, x = .colors frame scheme group domain → ∃ values,
        e.requestedColors? c.colors.schemes dataset = some (c.colors.requestKey scheme group, values) ∧
          domain = .ofList values := by
  obtain ⟨e, e', d, he, hfit⟩ := h.fits i hi
  obtain ⟨x, hx⟩ := ChannelEncoder.exists_refit (h.isIn e (List.mem_of_getElem? he)) hfit
  exact ⟨e, x, he, hx⟩

/-- Fitting one of the encoders leaves the others to be fitted. -/
theorem step (h : Fittable dataset (i :: order) es c) (hi : i ∉ order) :
    ∃ x : Refit α, (fitAt dataset es i).run.run c = (.ok (es.set i (x.run c).1), (x.run c).2) ∧
      Fittable dataset order (es.set i (x.run c).1) (x.run c).2 := by
  obtain ⟨e, x, he, hx, hrun, -⟩ := h.exists_refit List.mem_cons_self
  have hothers : ∀ j ∈ order, (es.set i (x.run c).1)[j]? = es[j]? := fun j hj =>
    List.getElem?_set_ne (by rintro rfl; exact hi hj)
  refine ⟨x, run_fitAt he (hrun c rfl), x.consistent_run h.consistent, ?_, ?_, ?_⟩
  · intro e hmem
    rcases List.mem_or_eq_of_mem_set hmem with hold | rfl
    · exact (h.isIn e hold).mono (x.grows_run c)
    · exact Refit.isIn_run hx h.consistent
  · intro j hj
    obtain ⟨e, y, he, -, hrun, -⟩ := h.exists_refit (List.mem_cons_of_mem i hj)
    exact ⟨e, _, _, (hothers j hj).trans he, hrun _ (x.schemes_run c)⟩
  · intro j hj k hk e e' key values values' he he'
    rw [hothers j hj] at he
    rw [hothers k hk] at he'
    rw [x.schemes_run]
    exact h.agrees j (List.mem_cons_of_mem i hj) k (List.mem_cons_of_mem i hk) e e' key values values' he he'

theorem of_subset (h : Fittable dataset order es c) (hsub : ∀ i ∈ order', i ∈ order) :
    Fittable dataset order' es c where
  consistent := h.consistent
  isIn := h.isIn
  fits i hi := h.fits i (hsub i hi)
  agrees i hi j hj := h.agrees i (hsub i hi) j (hsub j hj)

/-- All of them can be fitted one after the other. -/
theorem exists_fitEach (h : Fittable dataset order es c) (hnodup : order.Nodup) :
    ∃ es' d, (fitEach dataset order es).run.run c = (.ok es', d) := by
  induction order generalizing es c with
  | nil => exact ⟨es, c, rfl⟩
  | cons i order ih =>
    obtain ⟨hi, hrest⟩ := List.nodup_cons.mp hnodup
    obtain ⟨x, hrun, hnext⟩ := h.step hi
    obtain ⟨es', d, hlast⟩ := ih hnext hrest
    refine ⟨es', d, ?_⟩
    unfold fitEach
    rw [List.foldlM_cons, Action.run_bind_of_ok hrun]
    exact hlast

/-- Two encoders are fitted in either order. -/
theorem exchange (h : Fittable dataset (i :: j :: order) es c) (hij : i ≠ j) :
    Action.Embeds AllRenumbered (fitAt dataset es i >>= fun es => fitAt dataset es j)
      (fitAt dataset es j >>= fun es => fitAt dataset es i) {} c c := by
  have hj : j ∈ i :: j :: order := List.mem_cons_of_mem i List.mem_cons_self
  obtain ⟨e, x, he, hx, hrun, hcolors⟩ := h.exists_refit List.mem_cons_self
  obtain ⟨e', y, he', hy, hrun', hcolors'⟩ := h.exists_refit hj
  have hexchange : x.Exchanges y c := by
    refine Refit.exchange h.consistent hx hy ?_
    intro frame frame' scheme group scheme' group' domain domain' hxcolors hycolors hkey
    obtain ⟨values, hvalues, rfl⟩ := hcolors _ _ _ _ hxcolors
    obtain ⟨values', hvalues', rfl⟩ := hcolors' _ _ _ _ hycolors
    rw [← hkey] at hvalues'
    rw [h.agrees i List.mem_cons_self j hj e e' _ _ _ he he' hvalues hvalues']
  obtain ⟨g, hold, hsession, hfirst, hsecond⟩ := hexchange
  have hforth : (fitAt dataset es i >>= fun es => fitAt dataset es j).run.run c
      = (.ok ((es.set i (x.run c).1).set j (y.run (x.run c).2).1), (y.run (x.run c).2).2) := by
    rw [Action.run_bind_of_ok (run_fitAt he (hrun c rfl))]
    exact run_fitAt ((List.getElem?_set_ne hij).trans he') (hrun' _ (x.schemes_run c))
  have hback : (fitAt dataset es j >>= fun es => fitAt dataset es i).run.run c
      = (.ok ((es.set j (y.run c).1).set i (x.run (y.run c).2).1), (x.run (y.run c).2).2) := by
    rw [Action.run_bind_of_ok (run_fitAt he' (hrun' c rfl))]
    exact run_fitAt ((List.getElem?_set_ne hij.symm).trans he) (hrun _ (y.schemes_run c))
  have hgrows : c.Grows (y.run (x.run c).2).2 := (x.grows_run c).trans (y.grows_run _)
  unfold Action.Embeds
  rw [hforth, hback]
  refine ⟨g, hold, hgrows, hsession, .ok ?_⟩
  rw [List.set_comm _ _ hij.symm]
  exact forall₂_set (forall₂_set ((AllRenumbered.refl h.isIn).mono hold hgrows) hfirst i) hsecond j

end Fittable

/-- **Encoders can be fitted in any order.** The induction is on how one order is made from the other: by two
neighbours that are exchanged, after others that are fitted alike and before others that go on in related
sessions. -/
theorem fitEach_perm (hperm : order.Perm order') (hnodup : order.Nodup) (h : Fittable dataset order es c) :
    Action.Embeds AllRenumbered (fitEach dataset order es) (fitEach dataset order' es) {} c c := by
  induction hperm generalizing es c with
  | nil => exact .pure (.refl h.consistent) (.refl h.isIn)
  | cons i hperm ih =>
    obtain ⟨hi, hrest⟩ := List.nodup_cons.mp hnodup
    obtain ⟨x, hrun, hnext⟩ := h.step hi
    unfold fitEach
    rw [List.foldlM_cons, List.foldlM_cons]
    exact .of_step hrun (x.grows_run c) (ih hrest hnext)
  | swap i j order =>
    have hij : j ≠ i := fun hji => (List.nodup_cons.mp hnodup).1 (hji ▸ List.mem_cons_self)
    unfold fitEach
    rw [List.foldlM_cons, List.foldlM_cons]
    simp only [List.foldlM_cons, ← bind_assoc]
    exact (h.exchange hij).bind fun g b b' d d' _ _ hsession hb => fitEach_embeds hsession hb order
  | trans hperm hperm' ih ih' =>
    have hnodup' := hperm.nodup_iff.mp hnodup
    have h' := h.of_subset fun i hi => hperm.mem_iff.mpr hi
    exact .trans (fun hb hb' => hb.trans hb') (ih hnodup h) (ih' hnodup' h')

/-! ## In the declared order -/

/-- Fitted in place from the first to the last, encoders are fitted one by one. Those in front are done. -/
theorem fitEach_range' (done todo : List (ChannelEncoder α)) :
    fitEach dataset (List.range' done.length todo.length) (done ++ todo)
      = (done ++ ·) <$> todo.mapM fun e => e.fit dataset := by
  induction todo generalizing done with
  | nil =>
    show pure (done ++ []) = (done ++ ·) <$> List.mapM _ []
    rw [List.mapM_nil, map_pure]
  | cons e todo ih =>
    have he : (done ++ e :: todo)[done.length]? = some e := List.getElem?_append_right (Nat.le_refl _) |>.trans (by
      rw [Nat.sub_self]
      rfl)
    unfold fitEach at ih ⊢
    rw [List.length_cons, List.range'_succ, List.foldlM_cons, fitAt_of_getElem? he, List.mapM_cons, map_bind]
    simp only [bind_assoc, pure_bind]
    refine congrArg (e.fit dataset >>= ·) (funext fun e' => ?_)
    have hdone := ih (done ++ [e'])
    rw [List.length_append, List.length_singleton, List.append_assoc] at hdone
    have hset : (done ++ e :: todo).set done.length e' = done ++ ([e'] ++ todo) := by
      rw [List.set_append_right _ _ (Nat.le_refl _), Nat.sub_self]
      rfl
    rw [hset, hdone, map_eq_pure_bind, map_eq_pure_bind]
    simp only [bind_assoc, pure_bind, List.append_assoc]
    rfl

theorem fitEach_range (dataset : List (Datum α)) (es : List (ChannelEncoder α)) :
    fitEach dataset (List.range es.length) es = es.mapM fun e => e.fit dataset := by
  have h : fitEach dataset (List.range' 0 es.length) es = (fun es' => es') <$> es.mapM fun e => e.fit dataset :=
    fitEach_range' [] es
  rw [← List.range_eq_range'] at h
  exact h.trans (id_map _)

end ChannelEncoder

/-! ## Charts -/

/-- Puts encoders in the places of those of a channel. -/
def ChannelEncoders.refill : ChannelEncoders α → List (ChannelEncoder α) → ChannelEncoders α
  | .single e, es => .single (es.headD e)
  | .multiple _, es => .multiple es

/-- Puts encoders in the places of those of channels, in order. -/
def EncodedChannel.refillAll : List (EncodedChannel α) → List (ChannelEncoder α) → List (EncodedChannel α)
  | [], _ => []
  | c :: cs, es =>
    { c with encoders := c.encoders.refill (es.take c.encoders.toList.length) } ::
      refillAll cs (es.drop c.encoders.toList.length)

/-- The channel for a dataset. -/
def EncodedChannel.fit (c : EncodedChannel α) (dataset : List (Datum α)) : Action α (EncodedChannel α) :=
  return { c with encoders := ← c.encoders.mapM fun e => e.fit dataset }

namespace Encoder

/-- The encoder for a dataset, with the encoders fitted in some order. They are numbered through the channels. -/
def fitInOrder (e : Encoder α) (dataset : List (Datum α)) (order : List Nat) : Action α (Encoder α) :=
  return { channels := EncodedChannel.refillAll e.channels (← ChannelEncoder.fitEach dataset order e.encoders) }

end Encoder

theorem Action.length_of_mapM {β γ : Type} {f : β → Action α γ} {bs : List β} {cs : List γ} {c d : Session α}
    (h : (bs.mapM f).run.run c = (.ok cs, d)) : cs.length = bs.length :=
  (forall₂_of_mapM h).length_eq.symm

namespace ChannelEncoders

/-- Replacing the encoders of a channel is replacing them one by one. -/
theorem mapM_eq_refill (es : ChannelEncoders α) (f : ChannelEncoder α → Action α (ChannelEncoder α)) :
    es.mapM f = es.refill <$> es.toList.mapM f := by
  cases es with
  | single e =>
    show (do return .single (← f e)) = ChannelEncoders.refill (.single e) <$> List.mapM f [e]
    rw [List.mapM_cons, List.mapM_nil, map_eq_pure_bind]
    simp only [bind_assoc, pure_bind]
    rfl
  | multiple es => rw [map_eq_pure_bind]; rfl

end ChannelEncoders

namespace Encoder

variable {e : Encoder α} {dataset : List (Datum α)}

/-- Fitting channels one by one is fitting their encoders one by one. The induction is on the channels. -/
theorem run_mapM_fit (dataset : List (Datum α)) (cs : List (EncodedChannel α)) (c : Session α) :
    (cs.mapM fun channel : EncodedChannel α => channel.fit dataset).run.run c
      = (EncodedChannel.refillAll cs <$>
          (cs.flatMap fun channel => channel.encoders.toList).mapM
            fun e : ChannelEncoder α => e.fit dataset).run.run c := by
  induction cs generalizing c with
  | nil =>
    rw [List.mapM_nil, List.flatMap_nil, List.mapM_nil, map_pure]
    rfl
  | cons channel cs ih =>
    have hchannel : channel.fit dataset
        = (fun es => { channel with encoders := channel.encoders.refill es }) <$>
            channel.encoders.toList.mapM fun e => e.fit dataset := by
      unfold EncodedChannel.fit
      rw [ChannelEncoders.mapM_eq_refill, map_eq_pure_bind, map_eq_pure_bind]
      simp only [bind_assoc, pure_bind]
    rw [List.mapM_cons, List.flatMap_cons, List.mapM_append, hchannel]
    simp only [map_eq_pure_bind, bind_assoc, pure_bind] at ih ⊢
    refine Action.run_bind_congr fun es d hes => ?_
    -- the first encoders are those of the first channel
    have hrefill : ∀ es', EncodedChannel.refillAll (channel :: cs) (es ++ es')
        = { channel with encoders := channel.encoders.refill es } :: EncodedChannel.refillAll cs es' := by
      intro es'
      rw [EncodedChannel.refillAll, ← Action.length_of_mapM hes, List.take_left, List.drop_left]
    simp only [hrefill]
    rw [Action.run_bind_of_eq (ih d)]
    simp only [bind_assoc, pure_bind]

theorem fitInOrder_range (e : Encoder α) (dataset : List (Datum α)) (c : Session α) :
    (e.fitInOrder dataset (List.range e.encoders.length)).run.run c = (e.fit dataset).run.run c := by
  have hchannels := run_mapM_fit dataset e.channels c
  unfold fitInOrder
  rw [ChannelEncoder.fitEach_range]
  have hfit : e.fit dataset = (do
      let channels ← e.channels.mapM fun channel : EncodedChannel α => channel.fit dataset
      return { channels }) := rfl
  rw [hfit, Action.run_bind_of_eq hchannels, map_eq_pure_bind]
  simp only [bind_assoc, pure_bind]
  rfl

/-! ## What a chart shows of itself -/

/-- What a legend takes from a channel. -/
theorem legendField?_refill (c : EncodedChannel α) (f : Renumbering) (es : List (ChannelEncoder α)) :
    legendField? { c with encoders := c.encoders.refill (es.map (ChannelEncoder.renumber f)) }
      = legendField? { c with encoders := c.encoders.refill es } := by
  obtain ⟨name, role, encoders⟩ := c
  cases encoders with
  | single e =>
    cases es with
    | nil => rfl
    | cons e' es =>
      show ((some (e'.renumber f)).filter fun e => e.hasLegend).bind (fun e => e.definition.fieldName?)
        = ((some e').filter fun e => e.hasLegend).bind fun e => e.definition.fieldName?
      rw [Option.filter_some, Option.filter_some, show (e'.renumber f).hasLegend = e'.hasLegend from rfl]
      cases e'.hasLegend <;> rfl
  | multiple es => rfl

/-- Legends do not depend on the numbers of what the scales share. -/
theorem legends_refillAll (f : Renumbering) (cs : List (EncodedChannel α)) (es : List (ChannelEncoder α)) :
    legends { channels := EncodedChannel.refillAll cs (es.map (ChannelEncoder.renumber f)) }
      = legends { channels := EncodedChannel.refillAll cs es } := by
  unfold legends
  dsimp only
  generalize ([] : List (String × List String)) = legends
  induction cs generalizing es legends with
  | nil => rfl
  | cons c cs ih =>
    rw [EncodedChannel.refillAll, EncodedChannel.refillAll, List.foldl_cons, List.foldl_cons, ← List.map_take,
      ← List.map_drop, legendField?_refill]
    exact ih _ _

theorem channelNames_refillAll (cs : List (EncodedChannel α)) (es : List (ChannelEncoder α)) :
    (EncodedChannel.refillAll cs es).map (·.name) = cs.map (·.name) := by
  induction cs generalizing es with
  | nil => rfl
  | cons c cs ih => exact congrArg (c.name :: ·) (ih _)

/-- As many encoders as there are take the places of all of them. -/
theorem encoders_refillAll {cs : List (EncodedChannel α)} {es : List (ChannelEncoder α)}
    (h : es.length = (cs.flatMap fun c => c.encoders.toList).length) :
    encoders { channels := EncodedChannel.refillAll cs es } = es := by
  show (EncodedChannel.refillAll cs es).flatMap (fun c => c.encoders.toList) = es
  induction cs generalizing es with
  | nil => exact (List.length_eq_zero_iff.mp h).symm
  | cons c cs ih =>
    rw [List.flatMap_cons, List.length_append] at h
    have htake : (c.encoders.refill (es.take c.encoders.toList.length)).toList = es.take c.encoders.toList.length := by
      cases hc : c.encoders with
      | single e =>
        rw [hc] at h
        cases es with
        | nil =>
          have hlength : 0 = 1 + (cs.flatMap fun c => c.encoders.toList).length := h
          omega
        | cons e' es => rfl
      | multiple es' => rfl
    rw [EncodedChannel.refillAll, List.flatMap_cons, htake, ih (by rw [List.length_drop]; omega), List.take_append_drop]

theorem groupBys_eq (e : Encoder α) :
    e.groupBys = (((e.encoders.filter fun c => c.isGroupBy).filterMap fun c => c.definition.fieldName?).filter
      fun field => field != "").eraseDups :=
  rfl

/-- Nor does the grouping. -/
theorem groupBys_renumber {e e' : Encoder α} {f : Renumbering}
    (h : e'.encoders = e.encoders.map (ChannelEncoder.renumber f)) : e'.groupBys = e.groupBys := by
  rw [groupBys_eq, groupBys_eq, h, List.filter_map, List.filterMap_map]
  rfl

end Encoder

/-! ## Any order -/

/-- The client in another session, with the encoders of a chart. -/
def Client.keepEncoder (r : Client α) (session : Session α) (e : Encoder α) : Client α :=
  { r with session, channels := r.channels ++ e.encoders }

/-- Clients that keep charts which are the same up to the numbers of what the scales share. -/
theorem Client.Matches.keepEncoder {r r' : Client α} {f g : Renumbering} (h : r.Matches f r')
    {session session' : Session α} (hold : g.AgreeOn r.session f) (hgrows : r.session.Grows session)
    (hsession : session.Embeds g session') {e e' : Encoder α}
    (he : ChannelEncoder.AllRenumbered g session e.encoders e'.encoders) :
    (r.keepEncoder session e).Matches g (r'.keepEncoder session' e') :=
  { h.withSession hold hgrows hsession with channels := List.rel_append (h.withSession hold hgrows hsession).channels he }

namespace Encoder

variable {e : Encoder α} {dataset : List (Datum α)} {r : Client α} {order : List Nat}

/-- **A chart can be fitted in any order.** In a session after any requests, let each encoder of a chart be such
that it can be fitted to a dataset, and let those that request the same color table in this have the same domain
for it, in the same order. Then the chart is fitted in every order of its encoders. What a request for colors gets
after it, what the tables from before hold, the names, the groups, the legends and all answers to later requests
are as if it had been fitted in the declared order. -/
theorem fit_in_any_order (schemes : SchemeRegistry) (past : List (SessionRequest α))
    (hr : r = (Client.start schemes).after past) (hencoders : ∀ c ∈ e.encoders, c ∈ r.channels)
    (hfits : ∀ c ∈ e.encoders, ∃ c' after, (c.fit dataset).run.run r.session = (.ok c', after))
    (hagree : ∀ c ∈ e.encoders, ∀ c' ∈ e.encoders, ∀ key values values',
      c.requestedColors? r.session.colors.schemes dataset = some (key, values) →
      c'.requestedColors? r.session.colors.schemes dataset = some (key, values') → values = values')
    (horder : order.Perm (List.range e.encoders.length)) :
    ∃ fitted session fitted' session', (e.fit dataset).run.run r.session = (.ok fitted, session) ∧
      (e.fitInOrder dataset order).run.run r.session = (.ok fitted', session') ∧
      (∀ scheme group, (session'.colors.tableFor scheme group).2.table (session'.colors.tableFor scheme group).1
        = (session.colors.tableFor scheme group).2.table (session.colors.tableFor scheme group).1) ∧
      (∀ id < r.session.tableCount, session'.colors.table id = session.colors.table id) ∧
      fitted'.channelNames = fitted.channelNames ∧ fitted'.groupBys = fitted.groupBys ∧
      fitted'.legends = fitted.legends ∧
      ∀ later, answers Client.ask (r.keepEncoder session' fitted') later
        = answers Client.ask (r.keepEncoder session fitted) later := by
  obtain ⟨f, hmatches⟩ := (Client.matches_start schemes).after past
  rw [← hr] at hmatches
  replace hmatches := hmatches.refl
  have hfittable : ChannelEncoder.Fittable dataset (List.range e.encoders.length) e.encoders r.session := by
    refine ⟨hmatches.session.colors.consistent, fun c hc => ?_, fun i hi => ?_, ?_⟩
    · exact ((List.forall₂_and_left _ _).mp hmatches.channels).1 c (hencoders c hc)
    · have hlt := List.mem_range.mp hi
      obtain ⟨c', after, hfit⟩ := hfits _ (List.getElem_mem hlt)
      exact ⟨_, c', after, List.getElem?_eq_getElem hlt, hfit⟩
    · intro i _ j _ c c' key values values' hc hc'
      exact hagree c (List.mem_of_getElem? hc) c' (List.mem_of_getElem? hc') key values values'
  obtain ⟨es, session, hrun⟩ := hfittable.exists_fitEach List.nodup_range
  obtain ⟨g, hold, hgrows, hsession, halike⟩ :=
    ChannelEncoder.fitEach_perm horder.symm List.nodup_range hfittable
  rw [hrun] at hgrows hsession halike
  generalize hrun' : (ChannelEncoder.fitEach dataset order e.encoders).run.run r.session = result at hsession halike
  obtain ⟨outcome, session'⟩ := result
  cases halike with
  | ok hes =>
    cases Outcome.eq_map_of_forall₂ ((List.forall₂_and_left _ _).mp hes).2.flip
    have hfit : (e.fit dataset).run.run r.session
        = (.ok { channels := EncodedChannel.refillAll e.channels es }, session) := by
      rw [← fitInOrder_range, fitInOrder, Action.run_bind_of_ok hrun]
      rfl
    have hfit' : (e.fitInOrder dataset order).run.run r.session
        = (.ok { channels := EncodedChannel.refillAll e.channels (es.map (ChannelEncoder.renumber g)) }, session') := by
      rw [fitInOrder, Action.run_bind_of_ok hrun']
      rfl
    rw [ChannelEncoder.fitEach_range] at hrun
    have hlength : es.length = e.encoders.length := Action.length_of_mapM hrun
    have hkept := encoders_refillAll hlength
    have hkept' := encoders_refillAll (List.length_map (ChannelEncoder.renumber g) |>.trans hlength)
    refine ⟨_, session, _, session', hfit, hfit', fun scheme group => ?_, fun id hid => ?_, ?_, ?_,
      legends_refillAll g e.channels es, fun later => ?_⟩
    · obtain ⟨g', -, hnumber, htables⟩ := hsession.colors.tableFor scheme group
      rw [hnumber, htables.table _ (hsession.colors.consistent.tableFor_lt scheme group)]
    · have htable := hsession.colors.table id (Nat.lt_of_lt_of_le hid hgrows.tables)
      rw [hold.table id hid] at htable
      exact htable
    · exact (channelNames_refillAll _ _).trans (channelNames_refillAll _ _).symm
    · exact groupBys_renumber (hkept'.trans (congrArg _ hkept.symm))
    · refine (hmatches.keepEncoder hold hgrows hsession ?_).answer_alike later
      rw [hkept, hkept']
      exact hes

/-- Two fields of categories that are shown in colors, the colors of the second in a group of their own. -/
def twoColorings : List (SessionRequest Float) :=
  let grouped : ScaleConfig Float := { options := ScaleOptions.empty.set .colorGroup (some "b") }
  [.makeChannel "c" .color (.field { field := "a", type := .nominal }) false,
    .makeChannel "d" .color (.field { field := "b", type := .nominal, scale := some (.enabled grouped) }) false]

/-- A chart of them. -/
def twoColored : Encoder Float where
  channels := ((Client.start {}).after twoColorings).channels.map fun c =>
    { name := c.name, role := c.role, encoders := .single c }

/-- The second is fitted first. -/
theorem fit_in_any_order_twoColored :
    let dataset : List (Datum Float) := [[("a", .string "x"), ("b", .string "y")], [("a", .string "z")]]
    let r := (Client.start {}).after twoColorings
    ∃ fitted session fitted' session', (twoColored.fit dataset).run.run r.session = (.ok fitted, session) ∧
      (twoColored.fitInOrder dataset [1, 0]).run.run r.session = (.ok fitted', session') ∧
      ∀ later, answers Client.ask (r.keepEncoder session' fitted') later
        = answers Client.ask (r.keepEncoder session fitted) later := by
  intro dataset r
  obtain ⟨c, d, hencoders, hc, hd, hfitc, hfitd⟩ : ∃ c d, twoColored.encoders = [c, d] ∧
      c.requestedColors? {} dataset = some (("tableau10", "GLOBAL"), [.string "x", .string "z"]) ∧
      d.requestedColors? {} dataset = some (("tableau10", "b"), [.string "y"]) ∧
      (∃ c' after, (c.fit dataset).run.run r.session = (.ok c', after)) ∧
      ∃ d' after, (d.fit dataset).run.run r.session = (.ok d', after) :=
    ⟨_, _, rfl, rfl, rfl, ⟨_, _, rfl⟩, _, _, rfl⟩
  have hkept : ∀ e ∈ twoColored.encoders, e ∈ r.channels := by
    rw [show twoColored.encoders = r.channels from rfl]
    exact fun _ he => he
  have hfits : ∀ e ∈ twoColored.encoders, ∃ e' after, (e.fit dataset).run.run r.session = (.ok e', after) := by
    rw [hencoders]
    exact List.forall_mem_cons.mpr ⟨hfitc, List.forall_mem_singleton.mpr hfitd⟩
  have hagree : ∀ e ∈ twoColored.encoders, ∀ e' ∈ twoColored.encoders, ∀ key values values',
      e.requestedColors? {} dataset = some (key, values) →
      e'.requestedColors? {} dataset = some (key, values') → values = values' := by
    rw [hencoders]
    intro e he e' he' key values values' hvalues hvalues'
    have hkey : ∀ {e : ChannelEncoder Float} {k v w}, e.requestedColors? {} dataset = some (k, v) →
        e.requestedColors? {} dataset = some (key, w) → k = key :=
      fun h h' => congrArg Prod.fst (Option.some.inj (h.symm.trans h'))
    -- the same encoder has the same domain, and the two request different tables
    simp only [List.mem_cons, List.not_mem_nil, or_false] at he he'
    rcases he with rfl | rfl <;> rcases he' with rfl | rfl
    · exact congrArg Prod.snd (Option.some.inj (hvalues.symm.trans hvalues'))
    · exact absurd ((hkey hc hvalues).trans (hkey hd hvalues').symm) (by decide)
    · exact absurd ((hkey hc hvalues').trans (hkey hd hvalues).symm) (by decide)
    · exact congrArg Prod.snd (Option.some.inj (hvalues.symm.trans hvalues'))
  have horder : [1, 0].Perm (List.range twoColored.encoders.length) := by
    rw [hencoders]
    exact List.Perm.swap 0 1 []
  obtain ⟨fitted, session, fitted', session', hfit, hfit', -, -, -, -, -, hanswers⟩ :=
    fit_in_any_order {} twoColorings rfl hkept hfits hagree horder
  exact ⟨fitted, session, fitted', session', hfit, hfit', hanswers⟩

end Encoder

end VisualEncoding
