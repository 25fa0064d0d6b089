import VisualEncoding.Chart.Encoder
import VisualEncoding.Proofs.Channel.Encoders
import VisualEncoding.Proofs.Session.Renumbering

/-!
# Charts whose channels are bound

An encoding is turned into a chart channel by channel, and each uses up its binding. So a channel that is declared
twice finds nothing the second time, and whether there is a chart at all is decided by the names and by the
definitions one by one:

> `Encoder.ofEncoding_decides`: there is a chart if and only if no channel is declared twice, the encoding binds
> the declared channels and no others, and each definition has a scale that can be made or none.

What a definition needs of a session are its schemes, which nothing changes (`Action.Needs`): so it does not matter
what was made before it.
-/

namespace VisualEncoding

variable {α : Type} [Scalar α]

/-! ## Actions that need schemes -/

/-- An action that succeeds if and only if the schemes of the session are as it needs, and that keeps them. -/
structure Action.Needs {β : Type} (x : Action α β) (P : SchemeRegistry → Prop) : Prop where
  exists_ok_iff : ∀ c : Session α, (∃ b d, x.run.run c = (.ok b, d)) ↔ P c.colors.schemes
  schemes_eq : ∀ (c : Session α) b d, x.run.run c = (.ok b, d) → d.colors.schemes = c.colors.schemes

namespace Action.Needs

variable {β γ : Type} {x : Action α β} {k : β → Action α γ} {P Q : SchemeRegistry → Prop}

theorem pure (b : β) : Action.Needs (α := α) (Pure.pure b) fun _ => True where
  exists_ok_iff c := ⟨fun _ => trivial, fun _ => ⟨b, c, rfl⟩⟩
  schemes_eq _ _ _ h := by
    cases h
    rfl

theorem throw (p : Problem α) : Action.Needs (throw p : Action α β) fun _ => False where
  exists_ok_iff _ := ⟨fun ⟨_, _, h⟩ => (nomatch h), False.elim⟩
  schemes_eq _ _ _ h := nomatch h

/-- Two actions need what each of them needs. -/
theorem bind (hx : x.Needs P) (hk : ∀ b, (k b).Needs Q) : (x >>= k).Needs fun schemes => P schemes ∧ Q schemes where
  exists_ok_iff c := by
    constructor
    · rintro ⟨result, d, h⟩
      obtain ⟨b, c', hb, h⟩ := run_bind_eq_ok_iff.mp h
      refine ⟨(hx.exists_ok_iff c).mp ⟨b, c', hb⟩, ?_⟩
      rw [← hx.schemes_eq c b c' hb]
      exact ((hk b).exists_ok_iff c').mp ⟨result, d, h⟩
    · rintro ⟨hP, hQ⟩
      obtain ⟨b, c', hb⟩ := (hx.exists_ok_iff c).mpr hP
      rw [← hx.schemes_eq c b c' hb] at hQ
      obtain ⟨result, d, h⟩ := ((hk b).exists_ok_iff c').mpr hQ
      exact ⟨result, d, run_bind_eq_ok_iff.mpr ⟨b, c', hb, h⟩⟩
  schemes_eq c result d h := by
    obtain ⟨b, c', hb, h⟩ := run_bind_eq_ok_iff.mp h
    rw [(hk b).schemes_eq c' result d h, hx.schemes_eq c b c' hb]

theorem iff (hx : x.Needs P) (h : ∀ schemes, P schemes ↔ Q schemes) : x.Needs Q where
  exists_ok_iff c := (hx.exists_ok_iff c).trans (h _)
  schemes_eq := hx.schemes_eq

/-- A list of actions needs what each of them needs. -/
theorem mapM {f : β → Action α γ} {P : β → SchemeRegistry → Prop} {l : List β} (h : ∀ b, (f b).Needs (P b)) :
    (l.mapM f).Needs fun schemes => ∀ b ∈ l, P b schemes := by
  induction l with
  | nil =>
    rw [List.mapM_nil]
    exact (pure []).iff fun _ => ⟨fun _ _ hb => (nomatch hb), fun _ => trivial⟩
  | cons b l ih =>
    rw [List.mapM_cons]
    refine ((h b).bind fun c => ih.bind fun cs => pure (c :: cs)).iff fun schemes => ?_
    rw [List.forall_mem_cons, and_true]

end Action.Needs

/-! ## Definitions -/

theorem CompleteScaleConfig.realize_needs (config : CompleteScaleConfig α) :
    config.realize.Needs fun schemes => ∃ plan, config.plan schemes = .ok plan where
  exists_ok_iff c := by
    cases hplan : config.plan c.colors.schemes with
    | ok plan =>
      rw [realize_of_plan hplan]
      exact ⟨fun _ => ⟨plan, rfl⟩, fun _ => ⟨_, _, rfl⟩⟩
    | error p =>
      rw [realize_of_error hplan]
      exact ⟨fun ⟨_, _, h⟩ => (nomatch h), fun ⟨_, h⟩ => (nomatch h)⟩
  schemes_eq c s d h := by
    cases hplan : config.plan c.colors.schemes with
    | ok plan =>
      rw [realize_of_plan hplan] at h
      obtain rfl : (plan.realize.run (config.requested c)).2 = d := congrArg Prod.snd h
      rw [← config.schemes_requested c]
      cases plan with
      | alone s => rfl
      | ordinal o => rfl
      | colors scheme group domain => exact SharedTables.schemes_changeFor _ scheme group fun t => t.preassign domain
    | error p =>
      rw [realize_of_error hplan] at h
      nomatch h

namespace ChannelDef

variable {d : ChannelDef α} {role : ChannelRole} {isLocal : Bool} {c : Session α} {schemes : SchemeRegistry}

/-- The scale of a definition can be made in a session, if it has one. -/
def IsAccepted (d : ChannelDef α) (role : ChannelRole) (isLocal : Bool) (c : Session α) : Prop :=
  ∀ config, (d.complete role isLocal).scale? = some config → ∃ s after, config.realize.run.run c = (.ok s, after)

/-- The scale of a definition can be planned, if it has one. -/
def HasPlan (d : ChannelDef α) (role : ChannelRole) (isLocal : Bool) (schemes : SchemeRegistry) : Prop :=
  ∀ config, (d.complete role isLocal).scale? = some config → ∃ plan, config.plan schemes = .ok plan

theorem isAccepted_iff : d.IsAccepted role isLocal c ↔ d.HasPlan role isLocal c.colors.schemes :=
  forall₂_congr fun config _ => config.realize_needs.exists_ok_iff c

end ChannelDef

theorem ChannelEncoder.ofDef_needs (name : String) (role : ChannelRole) (d : ChannelDef α) (isLocal : Bool) :
    (ofDef name role d isLocal).Needs (d.HasPlan role isLocal) := by
  unfold ofDef ofComplete ChannelDef.HasPlan
  cases (d.complete role isLocal).scale? with
  | none => exact (Action.Needs.pure _).iff fun schemes => ⟨fun _ _ h => (nomatch h), fun _ => trivial⟩
  | some config =>
    refine ((config.realize_needs.bind fun s => .pure (some s)).bind fun scale => .pure _).iff fun schemes => ?_
    rw [and_true, and_true]
    exact ⟨fun h _ heq => (Option.some.inj heq) ▸ h, fun h => h config rfl⟩

/-! ## Bindings -/

namespace ChannelBinding

/-- The definitions of a binding with the names of their encoders. A single one has the name of the channel, those
of a list are numbered after it. -/
def named (binding : ChannelBinding α) (name : String) : List (String × ChannelDef α) :=
  match binding with
  | .single d => [(name, d)]
  | .multiple ds => ds.zipIdx.map fun (d, i) => (name ++ "[" ++ toString i ++ "]", d)

variable {binding : ChannelBinding α} {declared : ChannelDeclaration} {isLocal : Bool}

theorem encoders_needs (binding : ChannelBinding α) (declared : ChannelDeclaration) (isLocal : Bool) :
    (binding.encoders declared isLocal).Needs fun schemes =>
      ∀ d ∈ binding.named declared.name, d.2.HasPlan declared.role isLocal schemes := by
  cases binding with
  | single d =>
    refine ((ChannelEncoder.ofDef_needs declared.name declared.role d isLocal).bind fun e => .pure _).iff
      fun schemes => ?_
    rw [and_true]
    unfold named
    rw [List.forall_mem_singleton]
  | multiple ds =>
    refine ((Action.Needs.mapM fun entry : ChannelDef α × Nat =>
      ChannelEncoder.ofDef_needs (declared.name ++ "[" ++ toString entry.2 ++ "]") declared.role entry.1 isLocal).bind
        fun es => .pure _).iff fun schemes => ?_
    rw [and_true]
    unfold named
    rw [List.forall_mem_map]

/-- There is one encoder for each definition, with its name. -/
theorem map_of_encoders {encoders : ChannelEncoders α} {c after : Session α}
    (h : (binding.encoders declared isLocal).run.run c = (.ok encoders, after)) :
    encoders.toList.map (fun e => (e.name, e.role, e.definition))
      = (binding.named declared.name).map fun d => (d.1, declared.role, d.2.complete declared.role isLocal) := by
  cases binding with
  | single d =>
    obtain ⟨e, c', he, h⟩ := Action.run_bind_eq_ok_iff.mp h
    cases h
    show [(e.name, e.role, e.definition)] = _
    rw [ChannelEncoder.eq_of_ofComplete he]
    rfl
  | multiple ds =>
    obtain ⟨es, c', hes, h⟩ := Action.run_bind_eq_ok_iff.mp h
    cases h
    show es.map (fun e => (e.name, e.role, e.definition)) = (ds.zipIdx.map _).map _
    rw [List.map_map, ← List.forall₂_eq_eq_eq, List.forall₂_map_left_iff, List.forall₂_map_right_iff]
    refine (Action.forall₂_of_mapM hes).flip.imp ?_
    rintro e ⟨d, i⟩ ⟨_, _, he⟩
    rw [ChannelEncoder.eq_of_ofComplete he]
    rfl

end ChannelBinding

/-! ## Encodings -/

namespace Encoding

variable {encoding : Encoding α} {name other : String}

omit [Scalar α] in
theorem mem_names_iff : name ∈ encoding.names ↔ ∃ binding, encoding.lookup name = some binding := by
  rw [← Option.isSome_iff_exists, List.lookup_isSome_iff]
  unfold names
  rw [List.mem_map]
  exact exists_congr fun b => and_congr_right fun _ => eq_comm.trans beq_iff_eq.symm

omit [Scalar α] in
theorem lookup_without (encoding : Encoding α) (name other : String) :
    (encoding.without name).lookup other = if other = name then none else encoding.lookup other := by
  unfold without
  induction encoding with
  | nil => split <;> rfl
  | cons b encoding ih =>
    obtain ⟨key, binding⟩ := b
    rw [List.filter_cons, List.lookup_cons]
    by_cases hkey : key = name
    · subst hkey
      rw [if_neg (by simp), ih]
      by_cases hother : other = key
      · rw [if_pos hother, if_pos hother]
      · rw [if_neg hother, if_neg hother, beq_false_of_ne hother]
    · rw [if_pos (by simpa using hkey), List.lookup_cons, ih]
      by_cases hother : other = key
      · rw [hother, beq_self_eq_true]
        exact (if_neg hkey).symm
      · rw [beq_false_of_ne hother]

/-- The definitions that a name is bound to, with the names of their encoders. -/
def named (encoding : Encoding α) (name : String) : List (String × ChannelDef α) :=
  match encoding.lookup name with
  | none => []
  | some binding => binding.named name

omit [Scalar α] in
theorem named_of_lookup {binding : ChannelBinding α} (h : encoding.lookup name = some binding) :
    encoding.named name = binding.named name := by
  unfold named
  rw [h]

omit [Scalar α] in
theorem mem_names_without_iff : other ∈ (encoding.without name).names ↔ other ≠ name ∧ other ∈ encoding.names := by
  rw [mem_names_iff, mem_names_iff, lookup_without]
  split
  · next h => exact ⟨fun ⟨_, hnone⟩ => (nomatch hnone), fun hne => absurd h hne.1⟩
  · next h => exact ⟨fun hbound => ⟨h, hbound⟩, fun hbound => hbound.2⟩

omit [Scalar α] in
theorem named_without_of_ne (h : other ≠ name) : (encoding.without name).named other = encoding.named other := by
  unfold named
  rw [lookup_without, if_neg h]

omit [Scalar α] in
theorem undeclared?_eq_some {declared : List ChannelDeclaration}
    (h : encoding.undeclared? declared = some name) :
    name ∈ encoding.names ∧ name ∉ declared.map (·.name) := by
  refine ⟨List.mem_of_find?_eq_some h, ?_⟩
  have hnot := List.find?_some h
  simpa using hnot

omit [Scalar α] in
theorem undeclared?_eq_none_iff {declared : List ChannelDeclaration} :
    encoding.undeclared? declared = none ↔ ∀ name ∈ encoding.names, name ∈ declared.map (·.name) := by
  unfold undeclared?
  rw [List.find?_eq_none]
  refine forall₂_congr fun name _ => ?_
  rw [Bool.not_eq_true, Bool.not_eq_false', List.contains_iff_mem]

end Encoding

/-! ## Channels bound in turn -/

namespace Encoder

variable {declared : List ChannelDeclaration} {encoding : Encoding α} {isLocal : Bool} {c after : Session α}
  {channels : List (EncodedChannel α)}

/-- Channels can be bound in turn if and only if no name is declared twice, each is bound, and the definitions that
they are bound to have plans. The induction is on the declarations; the binding of the first is gone for the rest,
so that one with its name would find none. -/
theorem bindChannels_needs (isLocal : Bool) (declared : List ChannelDeclaration) (encoding : Encoding α) :
    (bindChannels isLocal declared encoding).Needs fun schemes =>
      (declared.map (·.name)).Nodup ∧ ∀ ch ∈ declared, ch.name ∈ encoding.names ∧
        ∀ d ∈ encoding.named ch.name, d.2.HasPlan ch.role isLocal schemes := by
  induction declared generalizing encoding with
  | nil => exact (Action.Needs.pure []).iff fun schemes => ⟨fun _ => ⟨.nil, fun _ h => nomatch h⟩, fun _ => trivial⟩
  | cons ch rest ih =>
    unfold bindChannels
    cases hlookup : encoding.lookup ch.name with
    | none =>
      refine (Action.Needs.throw _).iff fun schemes => ⟨False.elim, fun h => ?_⟩
      obtain ⟨binding, h⟩ := Encoding.mem_names_iff.mp (h.2 ch List.mem_cons_self).1
      rw [hlookup] at h
      nomatch h
    | some binding =>
      refine ((binding.encoders_needs ch isLocal).bind fun encoders =>
        (ih (encoding.without ch.name)).bind fun others => .pure _).iff fun schemes => ?_
      rw [and_true, List.map_cons, List.nodup_cons, List.forall_mem_cons, Encoding.named_of_lookup hlookup]
      constructor
      · rintro ⟨hfirst, hnodup, hrest⟩
        refine ⟨⟨?_, hnodup⟩, ⟨Encoding.mem_names_iff.mpr ⟨binding, hlookup⟩, hfirst⟩, fun ch' hch' => ?_⟩
        · -- the binding of the first name is gone for the rest
          intro hmem
          obtain ⟨ch', hch', hname⟩ := List.mem_map.mp hmem
          exact (Encoding.mem_names_without_iff.mp (hrest ch' hch').1).1 hname
        · obtain ⟨hbound, hplans⟩ := hrest ch' hch'
          obtain ⟨hne, hbound⟩ := Encoding.mem_names_without_iff.mp hbound
          rw [Encoding.named_without_of_ne hne] at hplans
          exact ⟨hbound, hplans⟩
      · rintro ⟨⟨hnot, hnodup⟩, ⟨-, hfirst⟩, hrest⟩
        refine ⟨hfirst, hnodup, fun ch' hch' => ?_⟩
        have hne : ch'.name ≠ ch.name := fun h => hnot (List.mem_map.mpr ⟨ch', hch', h⟩)
        obtain ⟨hbound, hplans⟩ := hrest ch' hch'
        rw [Encoding.named_without_of_ne hne]
        exact ⟨Encoding.mem_names_without_iff.mpr ⟨hne, hbound⟩, hplans⟩

/-- Bound channels stand as they are declared, with an encoder for each of their definitions. -/
theorem map_of_bindChannels (h : (bindChannels isLocal declared encoding).run.run c = (.ok channels, after)) :
    channels.map (·.name) = declared.map (·.name) ∧
      (channels.flatMap fun ch => ch.encoders.toList).map (fun e => (e.name, e.role, e.definition))
        = declared.flatMap fun ch =>
            (encoding.named ch.name).map fun d => (d.1, ch.role, d.2.complete ch.role isLocal) := by
  induction declared generalizing encoding c channels with
  | nil =>
    cases h
    exact ⟨rfl, rfl⟩
  | cons ch rest ih =>
    have hneeds := ((bindChannels_needs isLocal (ch :: rest) encoding).exists_ok_iff c).mp ⟨_, _, h⟩
    unfold bindChannels at h
    cases hlookup : encoding.lookup ch.name with
    | none =>
      rw [hlookup] at h
      nomatch h
    | some binding =>
      rw [hlookup] at h
      obtain ⟨encoders, c', hencoders, h⟩ := Action.run_bind_eq_ok_iff.mp h
      obtain ⟨others, c'', hothers, h⟩ := Action.run_bind_eq_ok_iff.mp h
      cases h
      obtain ⟨hnames, hdefinitions⟩ := ih hothers
      have hkept : ∀ ch' ∈ rest, (encoding.without ch.name).named ch'.name = encoding.named ch'.name := by
        intro ch' hch'
        rw [List.map_cons, List.nodup_cons] at hneeds
        exact Encoding.named_without_of_ne fun h => hneeds.1.1 (List.mem_map.mpr ⟨ch', hch', h⟩)
      refine ⟨congrArg (ch.name :: ·) hnames, ?_⟩
      rw [List.flatMap_cons, List.flatMap_cons, List.map_append, ChannelBinding.map_of_encoders hencoders, hdefinitions,
        Encoding.named_of_lookup hlookup]
      exact congrArg _ (List.flatMap_congr fun ch' hch' => by rw [hkept ch' hch'])

variable {e : Encoder α}

theorem ofEncoding_of_undeclared {name : String} (h : encoding.undeclared? declared = some name) (isLocal : Bool)
    (c : Session α) :
    (ofEncoding declared encoding isLocal).run.run c
      = (.error (.undeclaredChannel name (declared.map (·.name))), c) := by
  unfold ofEncoding
  rw [h]
  rfl

theorem ofEncoding_of_declared (h : encoding.undeclared? declared = none) (isLocal : Bool) :
    ofEncoding declared encoding isLocal
      = bindChannels isLocal declared encoding >>= fun channels => pure { channels } := by
  unfold ofEncoding
  rw [h]

/-- **There is a chart exactly for a well-matched encoding.** Let `declared` be the channels of a chart. An encoding
becomes a chart if and only if the declared names are distinct, the names that are bound are the declared ones, and
of every definition, those of lists included, the scale can be made, if it is to have one. A name that is bound but
not declared is reported before anything is made. The channels of a chart stand in the order of their declarations,
and there is one encoder for each definition, numbered in lists, that holds the completed definition. -/
theorem ofEncoding_decides (declared : List ChannelDeclaration) (encoding : Encoding α) (isLocal : Bool)
    (c : Session α) :
    ((∃ e after, (ofEncoding declared encoding isLocal).run.run c = (.ok e, after)) ↔
      (declared.map (·.name)).Nodup ∧ (∀ name, name ∈ encoding.names ↔ name ∈ declared.map (·.name)) ∧
        ∀ ch ∈ declared, ∀ d ∈ encoding.named ch.name, d.2.IsAccepted ch.role isLocal c) ∧
    ((∃ name ∈ encoding.names, name ∉ declared.map (·.name)) →
      ∃ name ∈ encoding.names, name ∉ declared.map (·.name) ∧
        (ofEncoding declared encoding isLocal).run.run c
          = (.error (.undeclaredChannel name (declared.map (·.name))), c)) ∧
    ∀ e after, (ofEncoding declared encoding isLocal).run.run c = (.ok e, after) →
      e.channelNames = declared.map (·.name) ∧
        e.encoders.map (fun e => (e.name, e.role, e.definition))
          = declared.flatMap fun ch =>
              (encoding.named ch.name).map fun d => (d.1, ch.role, d.2.complete ch.role isLocal) := by
  cases hundeclared : encoding.undeclared? declared with
  | some name =>
    have hrun := ofEncoding_of_undeclared hundeclared isLocal c
    obtain ⟨hbound, hnot⟩ := Encoding.undeclared?_eq_some hundeclared
    rw [hrun]
    refine ⟨⟨fun ⟨_, _, h⟩ => (nomatch h), fun h => absurd ((h.2.1 name).mp hbound) hnot⟩, fun _ => ?_, ?_⟩
    · exact ⟨name, hbound, hnot, rfl⟩
    · intro e after h
      nomatch h
  | none =>
    have hdeclared := Encoding.undeclared?_eq_none_iff.mp hundeclared
    rw [ofEncoding_of_declared hundeclared]
    refine ⟨?_, fun ⟨name, hbound, hnot⟩ => absurd (hdeclared name hbound) hnot, fun e after h => ?_⟩
    · have hneeds := (bindChannels_needs isLocal declared encoding).bind fun channels =>
        Action.Needs.pure (Encoder.mk channels)
      rw [hneeds.exists_ok_iff, and_true]
      refine and_congr_right fun _ => ?_
      constructor
      · intro h
        refine ⟨fun name => ⟨hdeclared name, fun hname => ?_⟩, fun ch hch d hd => ?_⟩
        · obtain ⟨ch, hch, rfl⟩ := List.mem_map.mp hname
          exact (h ch hch).1
        · exact ChannelDef.isAccepted_iff.mpr ((h ch hch).2 d hd)
      · rintro ⟨hnames, haccepted⟩ ch hch
        exact ⟨(hnames ch.name).mpr (List.mem_map.mpr ⟨ch, hch, rfl⟩),
          fun d hd => ChannelDef.isAccepted_iff.mp (haccepted ch hch d hd)⟩
    · obtain ⟨channels, c', hchannels, h⟩ := Action.run_bind_eq_ok_iff.mp h
      cases h
      exact map_of_bindChannels hchannels

/-- The channels of a chart of cities. -/
def surveyChannels : List ChannelDeclaration := [⟨"color", .color⟩, ⟨"size", .size⟩, ⟨"tooltip", .text⟩]

/-- An encoding of it, with two tooltips. -/
def surveyEncoding : Encoding Float :=
  [("tooltip", .multiple [.field { field := "city", type := .nominal }, .field { field := "note", type := .nominal }]),
    ("size", .single (.constant (.number 3))), ("color", .single (.field { field := "city", type := .nominal }))]

/-- The chart can be made, and cannot be with one more channel. -/
theorem ofEncoding_decides_survey :
    (∃ e after, (ofEncoding surveyChannels surveyEncoding false).run.run {} = (.ok e, after) ∧
      e.encoders.map (·.name) = ["color", "size", "tooltip[0]", "tooltip[1]"]) ∧
    (ofEncoding surveyChannels (surveyEncoding.bind "shape" (.single (.constant .null))) false).run.run {}
      = (.error (.undeclaredChannel "shape" ["color", "size", "tooltip"]), {}) := by
  constructor
  · obtain ⟨hexists, -, hok⟩ := ofEncoding_decides surveyChannels surveyEncoding false {}
    have hnames : ∀ name, name ∈ surveyEncoding.names ↔ name ∈ surveyChannels.map (·.name) := by
      have hperm : surveyEncoding.names.Perm (surveyChannels.map (·.name)) := by decide
      exact fun name => hperm.mem_iff
    have haccepted : ∀ ch ∈ surveyChannels, ∀ d ∈ surveyEncoding.named ch.name, d.2.IsAccepted ch.role false {} := by
      -- only the color has a scale
      have hcolor : ChannelDef.IsAccepted (.field { field := "city", type := .nominal }) .color false
          ({} : Session Float) := by
        intro config hconfig
        cases hconfig
        exact ⟨_, _, rfl⟩
      have hsize : ChannelDef.IsAccepted (.constant (.number 3)) .size false ({} : Session Float) :=
        fun _ h => nomatch h
      have htooltip : ∀ d ∈ surveyEncoding.named "tooltip", d.2.IsAccepted .text false {} :=
        List.forall_mem_cons.mpr ⟨fun _ h => (nomatch h), List.forall_mem_singleton.mpr fun _ h => nomatch h⟩
      exact List.forall_mem_cons.mpr ⟨List.forall_mem_singleton.mpr hcolor,
        List.forall_mem_cons.mpr ⟨List.forall_mem_singleton.mpr hsize, List.forall_mem_singleton.mpr htooltip⟩⟩
    obtain ⟨e, after, h⟩ := hexists.mpr ⟨by decide, hnames, haccepted⟩
    refine ⟨e, after, h, ?_⟩
    have hnames := congrArg (List.map Prod.fst) (hok e after h).2
    rw [List.map_map] at hnames
    exact hnames
  · obtain ⟨-, hundeclared, -⟩ :=
      ofEncoding_decides surveyChannels (surveyEncoding.bind "shape" (.single (.constant .null))) false {}
    obtain ⟨name, hbound, hnot, hrun⟩ := hundeclared ⟨"shape", by decide, by decide⟩
    have hshape : ∀ name ∈ ["tooltip", "size", "color", "shape"], name ∉ ["color", "size", "tooltip"] →
        name = "shape" := by decide
    rw [hshape name hbound hnot] at hrun
    exact hrun

end Encoder

end VisualEncoding
