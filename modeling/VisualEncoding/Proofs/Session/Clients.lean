import VisualEncoding.Proofs.Answers
import VisualEncoding.Proofs.Color.Holders
import VisualEncoding.Proofs.Session.Renumbering
import VisualEncoding.Scalar.Double

/-!
# Refused requests

A client of a session requests color tables, scales and channel encoders, keeps what it gets, and asks what
it has for colors, values, domains and the like. `Client.ask` answers one request, of any of these kinds.

A scale or an encoder that cannot be made is refused. The table of shared colors may have been requested
by then, so the session can be another one after that, but it is the same up to the numbers of its tables:

> `Client.Matches.ask`: clients that are the same up to the numbers of the tables get the same reply, and are
> the same again.
> `Client.answers_after_refused`: so whatever is asked later, a refused request cannot be noticed.
-/

namespace VisualEncoding

/-- What a client asks of a session. What it has got it names by a number, counted from zero. -/
inductive SessionRequest (α : Type) where
  /-- Requests or uses a color table, or takes all tables out of use. -/
  | table (call : TableCall α)
  /-- Makes a scale of a config. -/
  | makeScale (config : CompleteScaleConfig α)
  /-- Maps a value by a scale. -/
  | apply (scale : Nat) (v : Value α)
  /-- Asks for the family, the domain, the range and the bandwidth of a scale. -/
  | readScale (scale : Nat)
  /-- Asks for ticks of a scale. -/
  | ticks (scale count : Nat)
  /-- Makes a channel encoder of a definition. -/
  | makeChannel (name : String) (role : ChannelRole) (d : ChannelDef α) (isLocal : Bool)
  /-- Makes a channel encoder of another one and a dataset. -/
  | fitChannel (channel : Nat) (dataset : List (Datum α))
  /-- Takes the scale of a channel encoder. -/
  | takeScale (channel : Nat)
  /-- Asks for all of a channel encoder but its scale. Labels and observed domains are made from that. -/
  | readChannel (channel : Nat)
  /-- Encodes a record. -/
  | encodeDatum (channel : Nat) (datum : Datum α) (fallback : Value α)
  /-- Encodes a value. -/
  | encodeValue (channel : Nat) (v : Value α)

/-- What a client is told. -/
inductive SessionReply (α : Type) [Scalar α] where
  | table (answer : TableAnswer)
  | value (v : Value α)
  | scale (family : ScaleFamily) (domain range : List (Value α)) (bandwidth : Option α)
  | ticks (values : Except Calendar.IntervalFault (List (Value α)))
  | channel (e : ChannelEncoder α)
  | done
  /-- What was to be made cannot be made. -/
  | refused (p : Problem α)
  /-- The client has nothing with that number. -/
  | nothing

/-- A session and what a client has got in it, in order. -/
structure Client (α : Type) [Scalar α] where
  session : Session α
  tables : List Nat := []
  scales : List (Scale α) := []
  channels : List (ChannelEncoder α) := []

variable {α : Type} [Scalar α]

namespace Client

/-- A client that has got nothing yet, in a session with the schemes that are known. -/
def start (schemes : SchemeRegistry) : Client α := { session := .ofSchemes schemes }

/-- The client with other color tables in its session. -/
def withColors (r : Client α) (colors : SharedTables) : Client α :=
  { r with session := { r.session with colors } }

/-- The client with one more color table. -/
def keepTable (r : Client α) (id : Nat) : Client α := { r with tables := r.tables ++ [id] }

/-- The client with one more scale. -/
def keepScale (r : Client α) (s : Scale α) : Client α := { r with scales := r.scales ++ [s] }

/-- The client with one more channel encoder. -/
def keepChannel (r : Client α) (e : ChannelEncoder α) : Client α :=
  { r with channels := r.channels ++ [e] }

/-- The client with the scale of a channel encoder, if that has one. -/
def takeScale (r : Client α) (e : ChannelEncoder α) : SessionReply α × Client α :=
  match e.scale with
  | some s => (.done, r.keepScale s)
  | none => (.nothing, r)

/-- What comes of making something: it is kept if it is made. -/
def make {β : Type} (r : Client α) (keep : Client α → β → Client α) (x : Action α β) :
    SessionReply α × Client α :=
  match x.run.run r.session with
  | (.ok b, session) => (.done, keep { r with session } b)
  | (.error p, session) => (.refused p, { r with session })

/-- The value that a scale or an encoder answers with. -/
def answer (r : Client α) (x : StateM (Session α) (Value α)) : SessionReply α × Client α :=
  (.value (x.run r.session).1, { r with session := (x.run r.session).2 })

/-- Answers a request about a color table. -/
def askTable (r : Client α) (call : TableCall α) : SessionReply α × Client α :=
  let (answer, after) := ({ tables := r.session.colors, held := r.tables } : TableRun).call call
  (.table answer, { r.withColors after.tables with tables := after.held })

/-- What comes of the scale with a number. -/
def withScale (r : Client α) (i : Nat) (reply : Scale α → SessionReply α × Client α) :
    SessionReply α × Client α :=
  match r.scales[i]? with
  | some s => reply s
  | none => (.nothing, r)

/-- What comes of the channel encoder with a number. -/
def withChannel (r : Client α) (i : Nat) (reply : ChannelEncoder α → SessionReply α × Client α) :
    SessionReply α × Client α :=
  match r.channels[i]? with
  | some e => reply e
  | none => (.nothing, r)

/-- Answers a request. -/
def ask (r : Client α) : SessionRequest α → SessionReply α × Client α
  | .table call => r.askTable call
  | .makeScale config => r.make keepScale config.realize
  | .makeChannel name role d isLocal => r.make keepChannel (ChannelEncoder.ofDef name role d isLocal)
  | .fitChannel i dataset => r.withChannel i fun e => r.make keepChannel (e.fit dataset)
  | .apply i v => r.withScale i fun s => r.answer (s.apply v)
  | .encodeDatum i datum fallback => r.withChannel i fun e => r.answer (e.encodeDatum datum fallback)
  | .encodeValue i v => r.withChannel i fun e => r.answer (e.encodeValue v)
  | .readScale i => r.withScale i fun s =>
    (.scale s.family (s.domain r.session) (s.range r.session) s.bandwidth?, r)
  | .ticks i count => r.withScale i fun s => (.ticks (s.ticks r.session count), r)
  | .takeScale i => r.withChannel i r.takeScale
  | .readChannel i => r.withChannel i fun e => (.channel { e with scale := none }, r)

/-- The client after requests one after the other. -/
def after (r : Client α) (requests : List (SessionRequest α)) : Client α :=
  requests.foldl (fun r request => (r.ask request).2) r

/-! ## Clients up to the numbers of tables -/

/-- The sessions are the same up to the numbers of their tables, and what the clients have is the same up
to the same numbers. -/
structure Matches (f : Renumbering) (r r' : Client α) : Prop where
  session : r.session.Embeds f r'.session
  tables : List.Forall₂ (SharedTables.Renumbered f.table r.session.tableCount) r.tables r'.tables
  scales : List.Forall₂ (Scale.Renumbered f r.session) r.scales r'.scales
  channels : List.Forall₂ (ChannelEncoder.Renumbered f r.session) r.channels r'.channels

variable {f g : Renumbering} {r r' : Client α}

theorem matches_start (schemes : SchemeRegistry) :
    (start schemes : Client α).Matches {} (start schemes) where
  session := .refl (SharedTables.consistent_of_schemes schemes)
  tables := .nil
  scales := .nil
  channels := .nil

/-- What a client has does not change with a session that goes on to more tables. -/
theorem Matches.withSession (h : r.Matches f r') {session session' : Session α}
    (hold : g.AgreeOn r.session f) (hgrows : r.session.Grows session) (hsession : session.Embeds g session') :
    Matches g { r with session } { r' with session := session' } where
  session := hsession
  tables := h.tables.imp fun _ _ hid => hid.mono hold.table hgrows.tables
  scales := h.scales.imp fun _ _ hs => hs.mono hold hgrows
  channels := h.channels.imp fun _ _ he => he.mono hold hgrows

theorem Matches.withColors (h : r.Matches f r') {colors colors' : SharedTables} {table : Nat → Nat}
    (hold : ∀ id < r.session.tableCount, table id = f.table id)
    (hcount : r.session.tableCount ≤ colors.tables.size) (hcolors : colors.Embeds table colors') :
    (r.withColors colors).Matches { f with table } (r'.withColors colors') :=
  h.withSession ⟨hold, fun _ _ => rfl⟩ ⟨hcount, Nat.le_refl _⟩ { h.session with colors := hcolors }

/-- A client is the same as itself if it is the same as any other, because all that it has is there. -/
theorem Matches.refl (h : r.Matches f r') : r.Matches {} r where
  session := .refl h.session.colors.consistent
  tables := List.forall₂_same.mpr fun id hid =>
    ⟨((List.forall₂_and_left _ _).mp h.tables).1 id hid, rfl⟩
  scales := List.forall₂_same.mpr fun s hs =>
    ⟨((List.forall₂_and_left _ _).mp h.scales).1 s hs, (Scale.renumber_same s).symm⟩
  channels := List.forall₂_same.mpr fun e he =>
    ⟨((List.forall₂_and_left _ _).mp h.channels).1 e he, (ChannelEncoder.renumber_same e).symm⟩

/-! ## Requests -/

theorem Matches.keepTable (h : r.Matches f r') {id id' : Nat}
    (hid : SharedTables.Renumbered f.table r.session.tableCount id id') :
    (r.keepTable id).Matches f (r'.keepTable id') :=
  { h with tables := List.rel_append h.tables (.cons hid .nil) }

theorem Matches.keepScale (h : r.Matches f r') {s s' : Scale α}
    (hs : s.Renumbered f r.session s') : (r.keepScale s).Matches f (r'.keepScale s') :=
  { h with scales := List.rel_append h.scales (.cons hs .nil) }

theorem Matches.keepChannel (h : r.Matches f r') {e e' : ChannelEncoder α}
    (he : e.Renumbered f r.session e') : (r.keepChannel e).Matches f (r'.keepChannel e') :=
  { h with channels := List.rel_append h.channels (.cons he .nil) }

/-- The replies are the same, and the clients are the same again. -/
def Agree (p p' : SessionReply α × Client α) : Prop := p'.1 = p.1 ∧ ∃ g, p.2.Matches g p'.2

/-- What is made is kept by both, or refused to both. -/
theorem Matches.make {β : Type} (h : r.Matches f r') {keep : Client α → β → Client α}
    {Related : Renumbering → Session α → β → β → Prop}
    (hkeep : ∀ {g} {r r' : Client α} {b b'}, r.Matches g r' → Related g r.session b b' →
      (keep r b).Matches g (keep r' b'))
    {x x' : Action α β} (hx : Action.Embeds Related x x' f r.session r'.session) :
    Agree (r.make keep x) (r'.make keep x') := by
  -- tables may be made on the way, also if the making fails
  obtain ⟨g, hold, hgrows, hsession, halike⟩ := hx
  unfold Client.make
  generalize x.run.run r.session = result at hgrows hsession halike ⊢
  generalize x'.run.run r'.session = result' at hsession halike ⊢
  obtain ⟨outcome, session⟩ := result
  obtain ⟨outcome', session'⟩ := result'
  dsimp only at hgrows hsession halike
  have hmatches := h.withSession hold hgrows hsession
  cases halike with
  | ok hrelated => exact ⟨rfl, g, hkeep hmatches hrelated⟩
  | error p => exact ⟨rfl, g, hmatches⟩

theorem Matches.answer (h : r.Matches f r') {x x' : StateM (Session α) (Value α)}
    (hx : Session.AnswerAlike f r.session r'.session x x') :
    Agree (r.answer x) (r'.answer x') := by
  obtain ⟨hanswer, hgrows, hsession⟩ := hx
  refine ⟨?_, f, h.withSession (.refl _ f) hgrows hsession⟩
  exact congrArg SessionReply.value hanswer

theorem askTable_request (r : Client α) (scheme group : Option String) :
    r.askTable (.request scheme group)
      = (.table .done, (r.withColors (r.session.colors.tableFor scheme group).2).keepTable
          (r.session.colors.tableFor scheme group).1) :=
  rfl

theorem askTable_use_of_held {i id : Nat} (h : r.tables[i]? = some id) (u : TableUse α) :
    r.askTable (.use i u)
      = (.table (r.session.colors.update id u.act).1, r.withColors (r.session.colors.update id u.act).2) := by
  unfold askTable
  rw [TableRun.call_use_of_held (r := { tables := r.session.colors, held := r.tables }) h]
  rfl

theorem askTable_use_of_not_held {i : Nat} (h : r.tables[i]? = none) (u : TableUse α) :
    r.askTable (.use i u) = (.table .done, r) := by
  unfold askTable
  rw [TableRun.call_use_of_not_held (r := { tables := r.session.colors, held := r.tables }) h]
  rfl

/-- What two lists with related entries have at a place is related. -/
theorem getElem?_of_forall₂ {β : Type} {R : β → β → Prop} {l l' : List β} (h : List.Forall₂ R l l')
    (i : Nat) :
    (∃ b b', l[i]? = some b ∧ l'[i]? = some b' ∧ R b b') ∨ (l[i]? = none ∧ l'[i]? = none) := by
  induction h generalizing i with
  | nil => exact Or.inr ⟨rfl, rfl⟩
  | cons hb _ ih =>
    cases i with
    | zero => exact Or.inl ⟨_, _, rfl, rfl, hb⟩
    | succ i => exact ih i

/-- Color tables are requested and used alike. -/
theorem Matches.askTable (h : r.Matches f r') (call : TableCall α) :
    Agree (r.askTable call) (r'.askTable call) := by
  cases call with
  | request scheme group =>
    -- the renumbering goes on to the requested table, and so for all that is there
    obtain ⟨g, hold, hnumber, hcolors⟩ := h.session.colors.tableFor scheme group
    have hmatches := h.withColors hold (r.session.colors.size_le_tableFor scheme group) hcolors
    have hlt := h.session.colors.consistent.tableFor_lt scheme group
    rw [askTable_request, askTable_request]
    exact ⟨rfl, _, hmatches.keepTable ⟨hlt, hnumber⟩⟩
  | use i u =>
    rcases getElem?_of_forall₂ h.tables i with ⟨id, id', hheld, hheld', hlt, rfl⟩ | ⟨hheld, hheld'⟩
    · obtain ⟨hanswer, hcolors⟩ := h.session.colors.update hlt u.palette_act
      have hcount := Nat.le_of_eq (r.session.colors.size_update id u.act).symm
      rw [askTable_use_of_held hheld, askTable_use_of_held hheld', hanswer]
      exact ⟨rfl, f, h.withColors (fun _ _ => rfl) hcount hcolors⟩
    · rw [askTable_use_of_not_held hheld, askTable_use_of_not_held hheld']
      exact ⟨rfl, f, h⟩
  | reset => exact ⟨rfl, f, h.withColors (fun _ _ => rfl) (Nat.le_refl _) h.session.colors.reset⟩

/-- If the same comes of a scale for both, it also does of the one with a number. -/
theorem Matches.withScale (h : r.Matches f r') (i : Nat)
    {reply reply' : Scale α → SessionReply α × Client α}
    (hreply : ∀ s : Scale α, s.IsIn r.session → Agree (reply s) (reply' (s.renumber f))) :
    Agree (r.withScale i reply) (r'.withScale i reply') := by
  unfold Client.withScale
  rcases getElem?_of_forall₂ h.scales i with ⟨s, s', hs, hs', hin, rfl⟩ | ⟨hs, hs'⟩
  · rw [hs, hs']
    exact hreply s hin
  · rw [hs, hs']
    exact ⟨rfl, f, h⟩

theorem Matches.withChannel (h : r.Matches f r') (i : Nat)
    {reply reply' : ChannelEncoder α → SessionReply α × Client α}
    (hreply : ∀ e : ChannelEncoder α, e.IsIn r.session →
      Agree (reply e) (reply' (e.renumber f))) :
    Agree (r.withChannel i reply) (r'.withChannel i reply') := by
  unfold Client.withChannel
  rcases getElem?_of_forall₂ h.channels i with ⟨e, e', he, he', hin, rfl⟩ | ⟨he, he'⟩
  · rw [he, he']
    exact hreply e hin
  · rw [he, he']
    exact ⟨rfl, f, h⟩

/-- **Numbers of tables cannot be noticed.** Clients that are the same up to the numbers of the tables get
the same reply to a request, and are the same again. -/
theorem Matches.ask (h : r.Matches f r') (request : SessionRequest α) :
    Agree (r.ask request) (r'.ask request) := by
  cases request with
  | table call => exact h.askTable call
  | makeScale config =>
    exact h.make (fun hkept hs => hkept.keepScale hs)
      (CompleteScaleConfig.realize_embeds h.session config)
  | makeChannel name role d isLocal =>
    exact h.make (fun hkept he => hkept.keepChannel he)
      (ChannelEncoder.ofComplete_embeds h.session name role _ isLocal)
  | fitChannel i dataset =>
    refine h.withChannel i fun e hin => ?_
    exact h.make (fun hkept he => hkept.keepChannel he)
      (ChannelEncoder.fit_embeds h.session hin dataset)
  | apply i v =>
    exact h.withScale i fun s hin => h.answer (Scale.apply_embeds h.session hin v)
  | encodeDatum i datum fallback =>
    refine h.withChannel i fun e hin => ?_
    exact h.answer (ChannelEncoder.encodeDatum_embeds h.session hin datum fallback)
  | encodeValue i v =>
    exact h.withChannel i fun e hin =>
      h.answer (ChannelEncoder.encodeValue_embeds h.session hin v)
  | readScale i =>
    refine h.withScale i fun s hin => ⟨?_, f, h⟩
    dsimp only
    rw [Scale.family_renumber, Scale.domain_renumber h.session hin, Scale.range_renumber h.session hin,
      Scale.bandwidth?_renumber]
  | ticks i count =>
    refine h.withScale i fun s hin => ⟨?_, f, h⟩
    exact congrArg SessionReply.ticks (Scale.ticks_renumber h.session hin count)
  | takeScale i =>
    refine h.withChannel i fun e hin => ?_
    unfold Client.takeScale ChannelEncoder.renumber
    dsimp only
    cases hscale : e.scale with
    | some s => exact ⟨rfl, f, h.keepScale ⟨hin s hscale, rfl⟩⟩
    | none => exact ⟨rfl, f, h⟩
  | readChannel i => exact h.withChannel i fun e _ => ⟨rfl, f, h⟩

theorem Matches.after (h : r.Matches f r') (requests : List (SessionRequest α)) :
    ∃ g, (r.after requests).Matches g (r'.after requests) := by
  induction requests generalizing f r r' with
  | nil => exact ⟨f, h⟩
  | cons request requests ih =>
    obtain ⟨-, g, hg⟩ := h.ask request
    exact ih hg

/-- So all later requests are answered alike. -/
theorem Matches.answer_alike (h : r.Matches f r') (later : List (SessionRequest α)) :
    answers Client.ask r' later = answers Client.ask r later := by
  have hstep : ∀ (s t : Client α) request, True → (∃ f, t.Matches f s) →
      (s.ask request).1 = (t.ask request).1 ∧ ∃ f, (t.ask request).2.Matches f (s.ask request).2 :=
    fun s t request _ hmatches => hmatches.elim fun f hf => hf.ask request
  exact answers_eq hstep (fun _ _ => trivial) ⟨f, h⟩

/-! ## Refusals -/

/-- A config that does not become a scale leaves at most its request in the session. -/
theorem session_of_realize_error {config : CompleteScaleConfig α} {c : Session α} {p : Problem α}
    (h : (config.realize.run.run c).1 = .error p) :
    (config.realize.run.run c).2 = config.requested c := by
  cases hplan : config.plan c.colors.schemes with
  | ok plan =>
    rw [CompleteScaleConfig.realize_of_plan hplan] at h
    nomatch h
  | error p' => rw [CompleteScaleConfig.realize_of_error hplan]

/-- So does a definition that does not become an encoder. -/
theorem session_of_ofComplete_error {name : String} {role : ChannelRole} {d : CompleteChannelDef α}
    {isLocal : Bool} {c : Session α} {p : Problem α}
    (h : ((ChannelEncoder.ofComplete name role d isLocal).run.run c).1 = .error p) :
    ∃ config : CompleteScaleConfig α,
      ((ChannelEncoder.ofComplete name role d isLocal).run.run c).2 = config.requested c := by
  cases hscale : d.scale? with
  | none =>
    rw [ChannelEncoder.ofComplete_of_none hscale] at h
    nomatch h
  | some config =>
    rw [ChannelEncoder.ofComplete_of_some hscale] at h ⊢
    exact ⟨config, session_of_realize_error (Outcome.map_eq_error_iff.mp h)⟩

theorem session_of_fit_error {e : ChannelEncoder α} {dataset : List (Datum α)} {c : Session α}
    {p : Problem α} (h : ((e.fit dataset).run.run c).1 = .error p) :
    ∃ config : CompleteScaleConfig α, ((e.fit dataset).run.run c).2 = config.requested c := by
  cases hfitted : e.definition.fitted? dataset with
  | some d =>
    rw [ChannelEncoder.fit_of_fitted hfitted] at h ⊢
    exact session_of_ofComplete_error h
  | none =>
    rw [ChannelEncoder.fit_of_not_fitted hfitted] at h
    nomatch h

/-- What is not made is refused with its problem, and is not kept. -/
theorem make_of_refused {β : Type} {keep : Client α → β → Client α} {x : Action α β} {p : Problem α}
    (h : (r.make keep x).1 = .refused p) :
    (x.run.run r.session).1 = .error p ∧
      (r.make keep x).2 = { r with session := (x.run.run r.session).2 } := by
  unfold make at h ⊢
  generalize x.run.run r.session = result at h ⊢
  obtain ⟨outcome, session⟩ := result
  cases outcome with
  | ok b => nomatch h
  | error p' =>
    cases h
    exact ⟨rfl, rfl⟩

/-- Only what comes of a scale can be refused. -/
theorem withScale_of_refused {i : Nat} {reply : Scale α → SessionReply α × Client α} {p : Problem α}
    (h : (r.withScale i reply).1 = .refused p) :
    ∃ s, (reply s).1 = .refused p ∧ (r.withScale i reply).2 = (reply s).2 := by
  unfold withScale at h ⊢
  cases hs : r.scales[i]? with
  | some s =>
    rw [hs] at h
    exact ⟨s, h, rfl⟩
  | none =>
    rw [hs] at h
    nomatch h

theorem withChannel_of_refused {i : Nat} {reply : ChannelEncoder α → SessionReply α × Client α}
    {p : Problem α} (h : (r.withChannel i reply).1 = .refused p) :
    ∃ e, (reply e).1 = .refused p ∧ (r.withChannel i reply).2 = (reply e).2 := by
  unfold withChannel at h ⊢
  cases he : r.channels[i]? with
  | some e =>
    rw [he] at h
    exact ⟨e, h, rfl⟩
  | none =>
    rw [he] at h
    nomatch h

/-- A refused request leaves at most a requested table in the session. -/
theorem ask_of_refused {request : SessionRequest α} {p : Problem α}
    (h : (r.ask request).1 = .refused p) :
    ∃ config : CompleteScaleConfig α,
      (r.ask request).2 = { r with session := config.requested r.session } := by
  cases request with
  | makeScale config =>
    obtain ⟨herror, hnext⟩ := make_of_refused h
    rw [session_of_realize_error herror] at hnext
    exact ⟨config, hnext⟩
  | makeChannel name role d isLocal =>
    obtain ⟨herror, hnext⟩ := make_of_refused h
    unfold ChannelEncoder.ofDef at herror hnext
    obtain ⟨config, hsession⟩ := session_of_ofComplete_error herror
    rw [hsession] at hnext
    exact ⟨config, hnext⟩
  | fitChannel i dataset =>
    obtain ⟨e, hrefused, hreply⟩ := withChannel_of_refused h
    obtain ⟨herror, hnext⟩ := make_of_refused hrefused
    obtain ⟨config, hsession⟩ := session_of_fit_error herror
    rw [hsession] at hnext
    exact ⟨config, hreply.trans hnext⟩
  -- nothing else is refused
  | table call => nomatch h
  | apply i v | readScale i | ticks i count =>
    obtain ⟨s, hrefused, -⟩ := withScale_of_refused h
    nomatch hrefused
  | encodeDatum i datum fallback | encodeValue i v | readChannel i =>
    obtain ⟨e, hrefused, -⟩ := withChannel_of_refused h
    nomatch hrefused
  | takeScale i =>
    obtain ⟨e, hrefused, -⟩ := withChannel_of_refused h
    unfold Client.takeScale at hrefused
    cases hscale : e.scale with
    | some s =>
      rw [hscale] at hrefused
      nomatch hrefused
    | none =>
      rw [hscale] at hrefused
      nomatch hrefused

/-- A table that has been requested cannot be noticed. -/
theorem Matches.requested (h : r.Matches {} r) (config : CompleteScaleConfig α) :
    r.Matches {} { r with session := config.requested r.session } := by
  have hsession : r.session.Embeds {} (config.requested r.session) := by
    cases hshares : config.sharesColors with
    | true =>
      rw [CompleteScaleConfig.requested_of_sharesColors hshares]
      exact { h.session with colors := SharedTables.embeds_tableFor_right h.session.colors.consistent _ _ }
    | false =>
      rw [CompleteScaleConfig.requested_of_not_sharesColors hshares]
      exact h.session
  exact h.withSession (.refl _ _) (.refl _) hsession

/-- **A refused request leaves no trace.** After any requests, a scale or an encoder cannot be made. All that
is requested later is answered as if that had not been tried. -/
theorem answers_after_refused (schemes : SchemeRegistry) (past : List (SessionRequest α))
    (hr : r = (start schemes).after past) {request : SessionRequest α} {p : Problem α}
    (hrefused : (r.ask request).1 = .refused p) (later : List (SessionRequest α)) :
    answers ask (r.ask request).2 later = answers ask r later := by
  obtain ⟨f, hf⟩ := (matches_start schemes).after past
  rw [← hr] at hf
  obtain ⟨config, hnext⟩ := ask_of_refused hrefused
  rw [hnext]
  -- the client after the refusal is the one before it, up to the numbers of tables
  exact (hf.refl.requested config).answer_alike later

/-- Colors for a domain that has a month too many. -/
def colorsOfThirteenthMonth : CompleteScaleConfig Float where
  family := .ordinal
  options := ScaleOptions.empty.set .domain
    (some [.value (.string "x"), .date { month := some (.number 13) }])

/-- The same table is requested and used, and a scale is made on it. -/
def useOfColors : List (SessionRequest Float) :=
  [.table (.request none none), .table (.use 0 (.lookUp (.string "y"))),
    .makeScale { family := .ordinal }, .apply 0 (.string "x"), .table (.use 0 .count)]

/-- The colors for the domain are refused, and the table that was requested for them cannot be noticed. -/
theorem answers_after_refused_thirteenthMonth :
    ((start {}).ask (.makeScale colorsOfThirteenthMonth)).1 = .refused (.date (.monthNumber 13)) ∧
      answers ask ((start {}).ask (.makeScale colorsOfThirteenthMonth)).2 useOfColors
        = answers ask (start {}) useOfColors := by
  have hrefused : ((start {}).ask (.makeScale colorsOfThirteenthMonth)).1
      = .refused (.date (.monthNumber 13)) := rfl
  exact ⟨hrefused, answers_after_refused {} [] rfl hrefused useOfColors⟩

end Client

end VisualEncoding
