import VisualEncoding.Proofs.Channel.Observed
import VisualEncoding.Proofs.Scale.Categories
import VisualEncoding.Proofs.Scale.Settings
import VisualEncoding.Proofs.Session.Clients
import VisualEncoding.Proofs.Value.Reversal

/-!
# Categories after fitting

An ordinal scale takes in a category when it meets it for the first time, so in general what a record is
shown as depends on the records before it. An encoder that was fitted to a dataset has met all categories of
the dataset, though. Its scale maps each of them to the entry of its place and stays as it is:

> `Scale.Fixes`: the scale maps a value to an entry and remembers what it remembered before.
> `ChannelEncoder.fit_fixes`: after fitting this holds of every value that the field shows in the dataset.
> `Client.fitChannel_encodes_rows`: so the rows can be encoded in any order and any number of times, as long
> as nothing else changes what the scale remembers.
-/

namespace VisualEncoding

variable {α : Type} [Scalar α]

/-! ## What a scale remembers -/

/-- An entry that is put where it stands already. -/
theorem setIfInBounds_getD {β : Type} (xs : Array β) (i : Nat) (default : β) :
    xs.setIfInBounds i (xs[i]?.getD default) = xs := by
  refine Array.ext_getElem? fun j => ?_
  rw [Array.getElem?_setIfInBounds]
  by_cases hij : i = j
  · subst hij
    by_cases hlt : i < xs.size
    · rw [if_pos rfl, if_pos hlt, Array.getElem?_eq_getElem hlt, Option.getD_some]
    · rw [if_pos rfl, if_neg hlt, Array.getElem?_eq_none (Nat.le_of_not_lt hlt)]
  · rw [if_neg hij]

namespace Session

variable {β : Type} {id : Nat} {c : Session α} {b : β}

/-- A step that keeps its color table keeps the session. -/
theorem run_onTable_of_kept (step : ColorTable → β × ColorTable)
    (h : step (c.colors.table id) = (b, c.colors.table id)) : (onTable id step).run c = (b, c) := by
  show ((step (c.colors.table id)).1, { c with colors := { c.colors with
    tables := c.colors.tables.setIfInBounds id (step (c.colors.table id)).2 } }) = _
  rw [h]
  exact congrArg (fun tables => (b, { c with colors := { c.colors with tables } }))
    (setIfInBounds_getD c.colors.tables id _)

/-- A step that keeps its ordinal scale keeps the session. -/
theorem run_onOrdinal_of_kept (step : Ordinal α → β × Ordinal α)
    (h : step (c.ordinal id) = (b, c.ordinal id)) : (onOrdinal id step).run c = (b, c) := by
  show ((step (c.ordinal id)).1, { c with
    ordinals := c.ordinals.setIfInBounds id (step (c.ordinal id)).2 }) = _
  rw [h]
  exact congrArg (fun ordinals => (b, { c with ordinals })) (setIfInBounds_getD c.ordinals id _)

end Session

namespace Scale

variable {s : Scale α} {c c' c'' : Session α} {v w : Value α}

/-- Two sessions hold the same memory for a scale. -/
def SameMemory (s : Scale α) (c c' : Session α) : Prop :=
  match s with
  | .ordinal id => c'.ordinal id = c.ordinal id
  | .colors table _ => c'.colors.table table = c.colors.table table
  | _ => True

theorem SameMemory.refl (s : Scale α) (c : Session α) : s.SameMemory c c := by
  cases s <;> first | exact rfl | exact trivial

theorem SameMemory.trans (h : s.SameMemory c c') (h' : s.SameMemory c' c'') : s.SameMemory c c'' := by
  cases s with
  | ordinal | colors => exact Eq.trans h' h
  | _ => exact trivial

theorem SameMemory.domain_eq (h : s.SameMemory c c') : s.domain c' = s.domain c := by
  cases s with
  | ordinal id => exact congrArg (fun o : Ordinal α => o.domain.values) h
  | _ => rfl

/-- The scale maps a value to an entry and remembers what it remembered before. -/
def Fixes (s : Scale α) (c : Session α) (v w : Value α) : Prop :=
  match s with
  | .ordinal id => (c.ordinal id).apply v = (w, c.ordinal id)
  | .colors table _ => (c.colors.table table).valueFor v = (w, c.colors.table table)
  | s => (s.apply v).run c = (w, c)

theorem Fixes.run (h : s.Fixes c v w) : (s.apply v).run c = (w, c) := by
  cases s with
  | ordinal id => exact Session.run_onOrdinal_of_kept (fun o => o.apply v) h
  | colors table domain => exact Session.run_onTable_of_kept (fun t => t.valueFor v) h
  | _ => exact h

/-- A scale that fixes a value does so in every session with the same memory. -/
theorem Fixes.of_sameMemory (h : s.Fixes c v w) (hsame : s.SameMemory c c') : s.Fixes c' v w := by
  cases s with
  | ordinal id =>
    unfold Fixes at h ⊢
    dsimp only at h ⊢
    rw [show c'.ordinal id = c.ordinal id from hsame]
    exact h
  | colors table domain =>
    unfold Fixes at h ⊢
    dsimp only at h ⊢
    rw [show c'.colors.table table = c.colors.table table from hsame]
    exact h
  | _ => exact congrArg (fun p : Value α × Session α => (p.1, c')) h

end Scale

/-! ## Categories with entries -/

/-- A category of a domain has the entry of its place, the entries starting over when they run out. -/
def HasEntry (domain entries : List (Value α)) (v entry : Value α) : Prop :=
  ∃ i w, domain[i]? = some w ∧ w.key = v.key ∧ entries[i % entries.length]? = some entry

/-- What a value is shown as: its entry, or `fallback` if the value or its entry is missing. -/
def ShownAs (domain entries : List (Value α)) (v fallback shown : Value α) : Prop :=
  if v.isNull then shown = fallback
  else ∃ entry, HasEntry domain entries v entry ∧ shown = if entry.isNull then fallback else entry

/-- Every value of a list is a category of it, also of the list in reverse. -/
theorem Categories.exists_position?_of_mem {values : List (Value α)} {key : String}
    (h : key ∈ values.map Value.key) (isReversed : Bool) :
    ∃ i, (ofList (if isReversed then values.reverse else values)).position? key = some i := by
  refine Option.ne_none_iff_exists'.mp fun hnone => position?_eq_none_iff.mp hnone ?_
  rw [mem_keys_ofList]
  split
  · rw [List.map_reverse, List.mem_reverse]
    exact h
  · exact h

/-- An ordinal scale fixes its categories. -/
theorem Ordinal.apply_of_position? {o : Ordinal α} {v entry : Value α} {i : Nat}
    (hplace : o.domain.position? v.key = some i) (hentry : o.range[i % o.range.length]? = some entry) :
    o.apply v = (entry, o) := by
  unfold apply slot
  rw [hplace]
  dsimp only
  rw [hentry]
  rfl

/-- A color table fixes the categories of a domain that it has given their colors. -/
theorem ColorTable.valueFor_preassign (t : ColorTable) {domain : Categories α} {v : Value α} {i : Nat}
    {color : String} (hv : v.isNull = false) (hplace : domain.position? v.key = some i)
    (hcolor : t.palette[i % t.palette.length]? = some color) :
    (t.preassign domain).valueFor v = (.string color, t.preassign domain) := by
  have hsettled : (t.preassign domain).settled? v.key = some color := by
    rw [settled?_preassign, paletteColor?, hplace, Option.bind_some, hcolor]
    rfl
  rw [valueFor_of_not_isNull hv, colorOfKey_of_settled hsettled]

namespace CompleteScaleConfig

variable {c : CompleteScaleConfig α} {s : Scale α} {domain : Categories α} {session after : Session α}

/-- The entries that an ordinal config gives to its categories: its range, or the colors of its scheme. -/
def categoryEntries (c : CompleteScaleConfig α) (schemes : SchemeRegistry) : List (Value α) :=
  match c.setting .range with
  | some range => range
  | none => (schemes.palette (c.setting .scheme)).map .string

/-- An ordinal scale over categories: these are its domain, it has the entries of its config for a range, and
it fixes each category to the entry of its place. -/
theorem realize_fixes (hsession : session.colors.Consistent) (hf : c.family = .ordinal)
    (hdomain : c.categories? = .ok domain) :
    ∃ s after, c.realize.run.run session = (.ok s, after) ∧
      s.domain after = domain.values ∧ s.range after = c.categoryEntries session.colors.schemes ∧
      ∀ (v entry : Value α) i, v.isNull = false → domain.position? v.key = some i →
        (s.range after)[i % (s.range after).length]? = some entry → s.Fixes after v entry := by
  unfold categoryEntries
  cases hrange : c.setting .range with
  | some range =>
    have hmade : Session.ordinal (α := α)
        { session with ordinals := session.ordinals.push { domain, range } } session.ordinals.size
        = { domain, range } := by
      unfold Session.ordinal
      dsimp only
      rw [Array.getElem?_push_size, Option.getD_some]
    refine ⟨_, _, realize_of_ordinalRange hf hrange hdomain session, ?_, ?_, fun v entry i _ hplace hentry => ?_⟩
    · exact congrArg (fun o : Ordinal α => o.domain.values) hmade
    · exact congrArg Ordinal.range hmade
    · refine Ordinal.apply_of_position? ?_ hentry
      rw [hmade]
      exact hplace
  | none =>
    obtain ⟨id, hid⟩ : ∃ id, (session.colors.tableFor (c.setting .scheme) (c.setting .colorGroup)).1 = id :=
      ⟨_, rfl⟩
    have hgiven := SharedTables.table_changeFor_self hsession (c.setting .scheme) (c.setting .colorGroup)
      fun t => t.preassign domain
    have hpalette := hsession.palette_tableFor (c.setting .scheme) (c.setting .colorGroup)
    rw [hid] at hgiven hpalette
    have hrealize := realize_of_sharesColors (sharesColors_of_range_eq_none hf hrange) hdomain session
    rw [hid] at hrealize
    generalize (session.colors.changeFor (c.setting .scheme) (c.setting .colorGroup)) (fun t => t.preassign domain)
      = colors at hgiven hrealize
    have hcolors : (Scale.colors id domain).range { session with colors }
        = (session.colors.schemes.palette (c.setting .scheme)).map .string := by
      show (colors.table id).palette.map Value.string = _
      rw [hgiven, ColorTable.palette_preassign, hpalette]
    refine ⟨_, _, hrealize, rfl, hcolors, fun v entry i hv hplace hentry => ?_⟩
    rw [hcolors, List.length_map, List.getElem?_map] at hentry
    obtain ⟨color, hcolor, rfl⟩ := Option.map_eq_some_iff.mp hentry
    unfold Scale.Fixes
    dsimp only
    rw [hgiven]
    refine ColorTable.valueFor_preassign _ hv hplace ?_
    rw [hpalette]
    exact hcolor

end CompleteScaleConfig

/-! ## Fitted encoders -/

namespace CompleteChannelDef

/-- A definition whose scale leaves the domain open gets the domain that it observes. -/
theorem fitted?_of_isOpen {d : CompleteFieldDef α} {config : CompleteScaleConfig α}
    (hscale : d.scale = some config) (hopen : config.isOpen = true) (dataset : List (Datum α)) :
    fitted? (.field d) dataset
      = some (.field { d with scale := some (config.withDomain (observedDomain (.field d) dataset)) }) := by
  unfold fitted?
  dsimp only
  rw [hscale, Option.filter_some, if_pos hopen]
  rfl

/-- A field of categories shows the key of each of its values. -/
theorem mem_keys_observedDomain {d : CompleteFieldDef α} (htype : d.type = .nominal ∨ d.type = .ordinal)
    {dataset : List (Datum α)} {datum : Datum α} (hmem : datum ∈ dataset)
    (hvalue : (datum.get d.field).isNull = false) :
    (datum.get d.field).key ∈ (observedDomain (.field d) dataset).map Value.key := by
  rw [CompleteFieldDef.observedDomain_eq_of_categories (htype.imp_right Or.inl), Categories.mem_keys_ofList]
  refine List.mem_map_of_mem (List.mem_filter.mpr ⟨List.mem_map_of_mem hmem, ?_⟩)
  rw [hvalue]
  rfl

end CompleteChannelDef

namespace ChannelEncoder

variable {e : ChannelEncoder α} {d : CompleteFieldDef α} {config : CompleteScaleConfig α}
  {dataset : List (Datum α)} {session c : Session α} {s : Scale α}

/-- **What is fitted to a dataset is settled on it.** An encoder of categories can be fitted to every dataset.
Its scale then has the entries of its config for a range and fixes every value that the field shows in the
dataset. -/
theorem fit_fixes (hsession : session.colors.Consistent) (hdefinition : e.definition = .field d)
    (htype : d.type = .nominal ∨ d.type = .ordinal) (hscale : d.scale = some config)
    (hf : config.family = .ordinal) (hopen : config.isOpen = true)
    (hentries : config.categoryEntries session.colors.schemes ≠ []) (dataset : List (Datum α)) :
    ∃ e' s after, (e.fit dataset).run.run session = (.ok e', after) ∧ e'.scale = some s ∧
      (∀ datum, e'.definition.valueIn datum = datum.get d.field) ∧
      s.range after = config.categoryEntries session.colors.schemes ∧
      ∀ datum ∈ dataset, (datum.get d.field).isNull = false →
        ∃ entry, HasEntry (s.domain after) (s.range after) (datum.get d.field) entry ∧
          s.Fixes after (datum.get d.field) entry := by
  have hfitted := CompleteChannelDef.fitted?_of_isOpen hscale hopen dataset
  rw [← hdefinition] at hfitted
  generalize hvalues : e.definition.observedDomain dataset = values at hfitted
  have hset : (config.withDomain values).setting .domain = some (values.map .value) :=
    CompleteScaleConfig.setting_withSetting_self _
  have hread : List.Forall₂ (fun entry v => CompleteScaleConfig.valueOfEntry entry = .ok v)
      (values.map DomainEntry.value) values :=
    List.forall₂_map_left_iff.mpr (List.forall₂_same.mpr fun _ _ => rfl)
  have hkept : (config.withDomain values).categoryEntries session.colors.schemes
      = config.categoryEntries session.colors.schemes := by
    unfold CompleteScaleConfig.categoryEntries
    rw [show config.withDomain values = config.withSetting .domain (values.map .value) from rfl,
      CompleteScaleConfig.setting_withSetting_of_ne (by decide),
      CompleteScaleConfig.setting_withSetting_of_ne (by decide)]
  obtain ⟨s, after, hrealize, hdomain, hrange, hfixes⟩ := CompleteScaleConfig.realize_fixes hsession
    (c := config.withDomain values) hf (CompleteScaleConfig.categories?_of_entries hset hread)
  rw [hkept] at hrange
  have hmade := ofComplete_of_some (d := .field { d with scale := some (config.withDomain values) }) rfl
    e.name e.role e.isLocal session
  rw [hrealize] at hmade
  refine ⟨_, s, after, (congrArg (fun x => x.run.run session) (fit_of_fitted hfitted)).trans hmade, rfl,
    fun _ => rfl, hrange, ?_⟩
  intro datum hmem hvalue
  -- the value is one of those that are observed, in whatever direction they are taken
  have hkey := CompleteChannelDef.mem_keys_observedDomain htype hmem hvalue
  rw [← hdefinition, hvalues] at hkey
  obtain ⟨i, hplace⟩ := Categories.exists_position?_of_mem hkey (config.withDomain values).isReversed
  obtain ⟨w, hw, hwkey⟩ := Categories.position?_eq_some_iff.mp hplace
  rw [← hrange] at hentries
  have hentry := List.getElem?_eq_getElem (Nat.mod_lt i (List.length_pos_iff.mpr hentries))
  refine ⟨_, ⟨i, w, ?_, hwkey, hentry⟩, hfixes _ _ i hvalue hplace hentry⟩
  rw [hdomain]
  exact hw

/-- A record whose value is fixed is shown by its entry, and nothing changes. -/
theorem encodeDatum_of_fixes (hscale : e.scale = some s) {domain entries : List (Value α)} {datum : Datum α}
    (hfixes : (e.definition.valueIn datum).isNull = false →
      ∃ entry, HasEntry domain entries (e.definition.valueIn datum) entry ∧
        s.Fixes c (e.definition.valueIn datum) entry) (fallback : Value α) :
    ∃ shown, (e.encodeDatum datum fallback).run c = (shown, c) ∧
      ShownAs domain entries (e.definition.valueIn datum) fallback shown := by
  unfold ShownAs
  cases hv : (e.definition.valueIn datum).isNull with
  | true => exact ⟨fallback, encodeDatum_of_isNull hv fallback c, rfl⟩
  | false =>
    obtain ⟨entry, hhas, hfix⟩ := hfixes hv
    have hencode : (e.encodeValue (e.definition.valueIn datum)).run c = (entry, c) := by
      unfold encodeValue
      rw [hscale]
      exact hfix.run
    have hrun := encodeDatum_of_not_isNull hv fallback c
    rw [hencode] at hrun
    exact ⟨_, hrun, entry, hhas, rfl⟩

end ChannelEncoder

/-! ## Rows in any order -/

namespace SessionRequest

/-- The request encodes a row of a dataset with a channel encoder. -/
def EncodesRow (channel : Nat) (dataset : List (Datum α)) : SessionRequest α → Prop
  | .encodeDatum i datum _ => i = channel ∧ datum ∈ dataset
  | _ => False

end SessionRequest

namespace Client

variable {r fitted : Client α} {e : ChannelEncoder α} {s : Scale α} {channel : Nat} {dataset : List (Datum α)}

/-- Of the requests, those that do not encode rows leave what a scale remembers as it is. -/
def MindsRows (s : Scale α) (channel : Nat) (dataset : List (Datum α)) :
    Client α → List (SessionRequest α) → Prop
  | _, [] => True
  | r, request :: requests =>
    (request.EncodesRow channel dataset ∨ s.SameMemory r.session (r.ask request).2.session) ∧
      MindsRows s channel dataset (r.ask request).2 requests

/-- If a row is encoded, the reply is what its value is shown as. -/
def ShowsRow (channel : Nat) (dataset : List (Datum α)) (field : String) (domain entries : List (Value α))
    (request : SessionRequest α) (reply : SessionReply α) : Prop :=
  ∀ datum ∈ dataset, ∀ fallback, request = .encodeDatum channel datum fallback →
    ∃ shown, reply = .value shown ∧ ShownAs domain entries (datum.get field) fallback shown

theorem channels_make {β : Type} {keep : Client α → β → Client α}
    (hkeep : ∀ r b, r.channels <+: (keep r b).channels) (r : Client α) (x : Action α β) :
    r.channels <+: (r.make keep x).2.channels := by
  unfold make
  generalize x.run.run r.session = result
  obtain ⟨outcome, session⟩ := result
  cases outcome with
  | ok b => exact hkeep { r with session } b
  | error p => exact List.prefix_rfl

theorem channels_withScale {i : Nat} {reply : Scale α → SessionReply α × Client α}
    (hreply : ∀ s, r.channels <+: (reply s).2.channels) :
    r.channels <+: (r.withScale i reply).2.channels := by
  unfold withScale
  cases r.scales[i]? with
  | some s => exact hreply s
  | none => exact List.prefix_rfl

theorem channels_withChannel {i : Nat} {reply : ChannelEncoder α → SessionReply α × Client α}
    (hreply : ∀ e, r.channels <+: (reply e).2.channels) :
    r.channels <+: (r.withChannel i reply).2.channels := by
  unfold withChannel
  cases r.channels[i]? with
  | some e => exact hreply e
  | none => exact List.prefix_rfl

/-- What a client has got keeps its number. -/
theorem channels_ask (r : Client α) (request : SessionRequest α) :
    r.channels <+: (r.ask request).2.channels := by
  have hkeepChannel : ∀ (r : Client α) e, r.channels <+: (r.keepChannel e).channels :=
    fun _ _ => List.prefix_append _ _
  have hkeepScale : ∀ (r : Client α) s, r.channels <+: (r.keepScale s).channels := fun _ _ => List.prefix_rfl
  cases request with
  | table call => exact List.prefix_rfl
  | makeScale config => exact channels_make hkeepScale r _
  | makeChannel name role d isLocal => exact channels_make hkeepChannel r _
  | fitChannel i dataset => exact channels_withChannel fun e => channels_make hkeepChannel r _
  | apply i v | readScale i | ticks i count => exact channels_withScale fun s => List.prefix_rfl
  | encodeDatum i datum fallback | encodeValue i v | readChannel i =>
    exact channels_withChannel fun e => List.prefix_rfl
  | takeScale i =>
    refine channels_withChannel fun e => ?_
    unfold takeScale
    cases e.scale <;> exact List.prefix_rfl

theorem channel_ask (he : r.channels[channel]? = some e) (request : SessionRequest α) :
    (r.ask request).2.channels[channel]? = some e := by
  obtain ⟨more, hmore⟩ := channels_ask r request
  obtain ⟨hlt, -⟩ := List.getElem?_eq_some_iff.mp he
  rw [← hmore, List.getElem?_append_left hlt, he]

theorem ask_encodeDatum (he : r.channels[channel]? = some e) (datum : Datum α) (fallback : Value α) :
    r.ask (.encodeDatum channel datum fallback) = r.answer (e.encodeDatum datum fallback) := by
  show r.withChannel channel _ = _
  unfold withChannel
  rw [he]

/-- What is fitted is kept. -/
theorem ask_fitChannel {e' : ChannelEncoder α} {after : Session α} (he : r.channels[channel]? = some e)
    (hfit : (e.fit dataset).run.run r.session = (.ok e', after)) :
    r.ask (.fitChannel channel dataset) = (.done, keepChannel { r with session := after } e') := by
  show r.withChannel channel _ = _
  unfold withChannel
  rw [he]
  show r.make keepChannel (e.fit dataset) = _
  unfold make
  rw [hfit]

/-- Rows are shown by their entries, and what the scale remembers stays, as long as this holds in a session
with the same memory. The induction is on the requests, each of which hands on the memory to the next. -/
theorem answers_of_fixes {field : String} {session : Session α} (hscale : e.scale = some s)
    (hvalue : ∀ datum, e.definition.valueIn datum = datum.get field) {domain entries : List (Value α)}
    (hfixes : ∀ datum ∈ dataset, (datum.get field).isNull = false →
      ∃ entry, HasEntry domain entries (datum.get field) entry ∧ s.Fixes session (datum.get field) entry)
    (requests : List (SessionRequest α)) :
    ∀ r : Client α, r.channels[channel]? = some e → s.SameMemory session r.session →
      r.MindsRows s channel dataset requests →
      List.Forall₂ (ShowsRow channel dataset field domain entries) requests (answers ask r requests) ∧
        s.SameMemory session (r.after requests).session := by
  induction requests with
  | nil => exact fun r _ hmemory _ => ⟨.nil, hmemory⟩
  | cons request requests ih =>
    intro r he hmemory hrows
    obtain ⟨hrequest, hrequests⟩ := hrows
    have hrow : ∀ datum ∈ dataset, ∀ fallback, ∃ shown,
        r.ask (.encodeDatum channel datum fallback) = (.value shown, r) ∧
          ShownAs domain entries (datum.get field) fallback shown := by
      intro datum hdatum fallback
      have hfix : (e.definition.valueIn datum).isNull = false →
          ∃ entry, HasEntry domain entries (e.definition.valueIn datum) entry ∧
            s.Fixes r.session (e.definition.valueIn datum) entry := by
        intro hv
        rw [hvalue] at hv ⊢
        obtain ⟨entry, hhas, hfix⟩ := hfixes datum hdatum hv
        exact ⟨entry, hhas, hfix.of_sameMemory hmemory⟩
      obtain ⟨shown, hrun, hshown⟩ := ChannelEncoder.encodeDatum_of_fixes hscale hfix fallback
      refine ⟨shown, ?_, hvalue datum ▸ hshown⟩
      rw [ask_encodeDatum he]
      unfold answer
      rw [hrun]
    have hnext : s.SameMemory r.session (r.ask request).2.session := by
      rcases hrequest with hencodes | hkept
      · cases request with
        | encodeDatum i datum fallback =>
          obtain ⟨rfl, hdatum⟩ := hencodes
          obtain ⟨shown, hask, -⟩ := hrow datum hdatum fallback
          rw [hask]
          exact .refl s _
        | _ => exact hencodes.elim
      · exact hkept
    obtain ⟨hreplies, hlast⟩ := ih (r.ask request).2 (channel_ask he request)
      (hmemory.trans hnext) hrequests
    refine ⟨.cons ?_ hreplies, hlast⟩
    rintro datum hdatum fallback rfl
    obtain ⟨shown, hask, hshown⟩ := hrow datum hdatum fallback
    exact ⟨shown, congrArg Prod.fst hask, hshown⟩

/-- **After fitting, the order of the rows does not matter.** In a session after any requests, a channel of
categories whose ordinal scale leaves the domain open and has any entries, in its range or its palette, can be
fitted to every dataset. If then rows of the dataset are encoded, in any order and any number of times, and
nothing else changes what the new scale remembers, each row is shown by the entry of the place that the key of
its value has in the domain, and the domain, the range and all that the scale remembers stay as they are. -/
theorem fitChannel_encodes_rows (schemes : SchemeRegistry) (past : List (SessionRequest α))
    (hr : r = (start schemes).after past) (he : r.channels[channel]? = some e) {d : CompleteFieldDef α}
    (hdefinition : e.definition = .field d) (htype : d.type = .nominal ∨ d.type = .ordinal)
    {config : CompleteScaleConfig α} (hscale : d.scale = some config) (hf : config.family = .ordinal)
    (hopen : config.isOpen = true) (hentries : config.categoryEntries r.session.colors.schemes ≠ [])
    (dataset : List (Datum α)) :
    ∃ fitted e' s, r.ask (.fitChannel channel dataset) = (.done, fitted) ∧
      fitted.channels = r.channels ++ [e'] ∧ e'.scale = some s ∧
      s.range fitted.session = config.categoryEntries r.session.colors.schemes ∧
      ∀ later, fitted.MindsRows s r.channels.length dataset later →
        List.Forall₂
            (ShowsRow r.channels.length dataset d.field (s.domain fitted.session) (s.range fitted.session))
            later (answers ask fitted later) ∧
          s.domain (fitted.after later).session = s.domain fitted.session ∧
          s.SameMemory fitted.session (fitted.after later).session := by
  obtain ⟨f, hmatches⟩ := (matches_start schemes).after past
  rw [← hr] at hmatches
  obtain ⟨e', s, after, hfit, hscale', hvalue, hrange, hfixes⟩ :=
    ChannelEncoder.fit_fixes hmatches.session.colors.consistent hdefinition htype hscale hf hopen hentries dataset
  refine ⟨_, e', s, ask_fitChannel he hfit, rfl, hscale', hrange, fun later hlater => ?_⟩
  obtain ⟨hreplies, hmemory⟩ := answers_of_fixes hscale' hvalue hfixes later _ List.getElem?_concat_length
    (.refl s _) hlater
  exact ⟨hreplies, hmemory.domain_eq, hmemory⟩

/-- A field of categories that is shown in colors. -/
def colored : SessionRequest Float := .makeChannel "c" .color (.field { field := "a", type := .nominal }) false

/-- Two categories, one of them twice. -/
def threeRows : List (Datum Float) := [[("a", .string "x")], [("a", .string "y")], [("a", .string "x")]]

/-- Encodes the rows from last to first, and the second once more. -/
def backwards : List (SessionRequest Float) :=
  [threeRows[2], threeRows[1], threeRows[0], threeRows[1]].map fun row => .encodeDatum 1 row (.string "none")

theorem fitChannel_encodes_rows_backwards :
    ∃ fitted e' s, ((start {}).after [colored]).ask (.fitChannel 0 threeRows) = (.done, fitted) ∧
      fitted.channels[1]? = some e' ∧ e'.scale = some s ∧
      List.Forall₂ (ShowsRow 1 threeRows "a" (s.domain fitted.session) (s.range fitted.session)) backwards
        (answers ask fitted backwards) := by
  let config : CompleteScaleConfig Float := { family := .ordinal, options := .completed .empty .ordinal }
  obtain ⟨e, he, hdefinition⟩ : ∃ e, ((start {}).after [colored]).channels[0]? = some e ∧
      e.definition = .field (FieldDef.complete { field := "a", type := .nominal } .color false) := ⟨_, rfl, rfl⟩
  have hpalette : SchemeRegistry.palette {} none ≠ [] := by decide
  have hentries : config.categoryEntries {} = (SchemeRegistry.palette {} none).map .string := rfl
  obtain ⟨fitted, e', s, hfit, hchannels, hscale, -, hrows⟩ :=
    fitChannel_encodes_rows {} [colored] rfl he hdefinition (Or.inl rfl)
      (show _ = some config from rfl) rfl rfl
      (fun h => hpalette (List.map_eq_nil_iff.mp (hentries.symm.trans h))) threeRows
  have hmem : ∀ i : Fin 3, threeRows[i] ∈ threeRows := fun i => List.getElem_mem _
  have hlater : fitted.MindsRows s 1 threeRows backwards :=
    ⟨.inl ⟨rfl, hmem 2⟩, .inl ⟨rfl, hmem 1⟩, .inl ⟨rfl, hmem 0⟩, .inl ⟨rfl, hmem 1⟩, trivial⟩
  exact ⟨fitted, e', s, hfit, by rw [hchannels]; rfl, hscale, (hrows backwards hlater).1⟩

end Client

namespace ChannelEncoder

/-- One category, whose entry is missing. -/
def unshown : FieldDef Float where
  field := "a"
  type := .nominal
  scale := some (.enabled { family := some .ordinal, options := ScaleOptions.empty.set .range (some [.null]) })

/-- A record whose entry is missing is not shown by it. -/
theorem fit_missingEntry :
    ∃ e e' s c c', (ofDef "c" .color (.field unshown) false).run.run {} = (.ok e, c) ∧
      (e.fit [[("a", .string "x")]]).run.run c = (.ok e', c') ∧ e'.scale = some s ∧
      ∀ entry, HasEntry (s.domain c') (s.range c') (.string "x") entry →
        ((e'.encodeDatum [("a", .string "x")] (.string "z")).run c').1 ≠ entry := by
  refine ⟨_, _, _, _, _, rfl, rfl, rfl, ?_⟩
  rintro entry ⟨i, w, hw, -, hentry⟩
  have hnull : entry = .null := by
    have hrange : ([Value.null][i % 1]? : Option (Value Float)) = some entry := hentry
    rw [Nat.mod_one] at hrange
    exact (Option.some.inj hrange).symm
  rw [hnull]
  exact nofun

end ChannelEncoder

end VisualEncoding
