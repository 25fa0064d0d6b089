import VisualEncoding.Channel.Completion
import VisualEncoding.Channel.Document
import VisualEncoding.Proofs.Axis.Documents
import VisualEncoding.Proofs.Json.Texts
import VisualEncoding.Proofs.Scale.Documents

/-!
# Definitions survive JSON

> `ChannelDef.read_toJson_of_parse`: a definition that was read from a text is written as a tree that is read as the
> same definition, and its completion as one that is read as what the completion stands for.

A definition is read from many spellings and written in one, so that it is the definition that comes back and not
the tree. Its parts are told apart by the kind of tree they are written as: a flag is no object, and an object is
taken for a record by every alternative that stands before the record in a union. What has to be shown of a part is
therefore that it is restored field by field (`FieldDef.IsRestorable`), which holds of what was read, and which
completion keeps because whatever it sets is a flag, a short text or a small number.
-/

namespace VisualEncoding

open Json (RecordField Record)

/-! ## Bins -/

namespace BinParams

/-- The parameters of bins. -/
def fields : List (RecordField (BinParams Float)) :=
  [.optional "maxbins" Json.readWord (fun n : Nat => .int n) (·.maxbins) fun p x => { p with maxbins := x },
   .optional "step" Json.readFloat .ofFloat (·.step) fun p x => { p with step := x }]

/-- The parameters of bins as a record. -/
def record : Record (BinParams Float) where
  start := {}
  take := take
  fields := fields
  take_field := by
    intro f hf
    fin_cases hf <;> intro _ _ <;> rfl
  take_other := by
    intro name hname p j p' h
    unfold take at h
    split at h
    case h_3 => cases h; rfl
    all_goals exact absurd (by simp [fields, RecordField.optional]) hname
  get_start := by
    intro f hf
    fin_cases hf <;> rfl
  get_set := by
    intro f hf
    fin_cases hf <;> exact fun _ _ => rfl
  independent := by
    simp [fields, RecordField.optional, RecordField.independent_iff]

theorem fields_roundTrip : ∀ f ∈ record.fields, f.RoundTrips := by
  simp only [record, fields, List.forall_mem_cons]
  exact ⟨RecordField.optional_roundTrips Json.refusesNull_word Json.roundTrips_word,
    RecordField.optional_roundTrips Json.refusesNull_float Json.roundTrips_float, nofun⟩

theorem eq_of_fields {p p' : BinParams Float} (h : ∀ f ∈ record.fields, f.get p' = f.get p) : p' = p := by
  simp only [record, fields, List.forall_mem_cons] at h
  obtain ⟨hmaxbins, hstep, -⟩ := h
  cases p
  cases p'
  exact (mk.injEq ..).mpr ⟨hmaxbins, hstep⟩

end BinParams

/-- What is read as a bin setting is restored. -/
theorem Bin.roundTrips : Json.RoundTrips Bin.read Bin.toJson := by
  intro j bin hj h
  rcases Json.readUnion_eq_ok h with h | h
  · obtain ⟨on, -, rfl⟩ := Outcome.map_eq_ok_iff.mp h
    rfl
  rcases Json.readUnion_eq_ok h with h | h
  · obtain ⟨p, hp, rfl⟩ := Outcome.map_eq_ok_iff.mp h
    have hread := BinParams.record.roundTrips BinParams.fields_roundTrip (fun _ _ => BinParams.eq_of_fields) _ _ j p
      hj hp
    have hjson : (params p).toJson = BinParams.record.toJson p :=
      congrArg Json.object (congrArg _ (List.append_nil _).symm)
    unfold Json.Restores at hread ⊢
    rw [hjson]
    rw [Record.toJson, Json.canonical_object] at hread ⊢
    exact (Json.readUnion_of_error rfl).trans (Json.readUnion_of_ok (congrArg (Except.map params) hread))
  · exact absurd h Json.readUnion_nil

/-! ## Parts that can be switched off -/

namespace Configurable

variable {β : Type} {read : Json.Reader β} {write : β → Json}

theorem ofOption_eq_enabled {config? : Option β} {config : β} (h : ofOption config? = .enabled config) :
    config? = some config := by
  cases config? with
  | none => nomatch h
  | some c =>
    cases h
    rfl

variable [Inhabited β]

/-- A part that is on is on with nothing set, or as it is read. -/
theorem of_read {P : β → Prop} {j : Json} {config : β} (hdefault : P default)
    (hread : ∀ config, read j = .ok config → P config)
    (h : Configurable.read read j = .ok (.enabled config)) : P config := by
  rcases Json.readUnion_eq_ok h with h | h
  · obtain ⟨flag, -, h⟩ := Outcome.bind_eq_ok_iff.mp h
    split at h
    · cases h
      exact hdefault
    · nomatch h
  rcases Json.readUnion_eq_ok h with h | h
  · obtain ⟨c, hc, hconfig⟩ := Outcome.map_eq_ok_iff.mp h
    cases hconfig
    exact hread config hc
  · exact absurd h Json.readUnion_nil

/-- A part that counts as enabled is on as it is asked for, or left out. -/
theorem of_orDefault {P : β → Prop} {part : Option (Configurable β)} {config : β} (hdefault : P default)
    (hpart : ∀ config, part = some (.enabled config) → P config) (h : orDefault part = some config) : P config := by
  cases part with
  | none =>
    cases h
    exact hdefault
  | some part =>
    cases part with
    | disabled => nomatch h
    | enabled c =>
      cases h
      exact hpart _ rfl

/-- A part is restored if its config is. A config that is an object is not mistaken for a flag. -/
theorem restores {part : Configurable β} (hobject : ∀ config, ∃ members, write config = .object members)
    (h : ∀ config, part = .enabled config → Json.Restores read write config) :
    Json.Restores (Configurable.read read) (toJson write) part := by
  cases part with
  | disabled => rfl
  | enabled config =>
    have hconfig := h config rfl
    obtain ⟨members, hmembers⟩ := hobject config
    unfold Json.Restores at hconfig ⊢
    rw [hmembers, Json.canonical_object] at hconfig
    rw [toJson, hmembers, Json.canonical_object]
    exact (Json.readUnion_of_error rfl).trans (Json.readUnion_of_ok (congrArg (Except.map enabled) hconfig))

end Configurable

/-! ## Field channels -/

theorem DataType.restores (t : DataType) : Json.Restores DataType.read DataType.toJson t := by
  cases t <;> rfl

namespace FieldDef

/-- The members of a field channel. -/
def fields : List (RecordField Draft) :=
  [.present "field" Json.readString .string (·.field) fun d x => { d with field := x },
   .present "type" DataType.read DataType.toJson (·.type) fun d x => { d with type := x },
   .optional "format" Json.readString .string (·.rest.format) fun d x => { d with rest := { d.rest with format := x } },
   .optional "title" Json.readString .string (·.rest.title) fun d x => { d with rest := { d.rest with title := x } },
   .optional "bin" Bin.read Bin.toJson (·.rest.bin) fun d x => { d with rest := { d.rest with bin := x } },
   .present "scale" (Configurable.read ScaleConfig.read) (Configurable.toJson ScaleConfig.toJson) (·.rest.scale)
     fun d x => { d with rest := { d.rest with scale := x } },
   .present "axis" (Configurable.read AxisConfig.read) (Configurable.toJson AxisConfig.toJson) (·.rest.axis)
     fun d x => { d with rest := { d.rest with axis := x } },
   .optional "legend" Json.readBool .bool (·.rest.legend) fun d x => { d with rest := { d.rest with legend := x } }]

/-- A field channel as a record of its members. -/
def record : Record Draft where
  start := {}
  take := Draft.take
  fields := fields
  take_field := by
    intro f hf
    fin_cases hf <;> intro _ _ <;> first | rfl | (rw [RecordField.bind_present]; rfl)
  take_other := by
    intro name hname d j d' h
    unfold Draft.take at h
    split at h
    case h_9 => nomatch h
    all_goals exact absurd (by simp [fields, RecordField.optional, RecordField.present]) hname
  get_start := by
    intro f hf
    fin_cases hf <;> rfl
  get_set := by
    intro f hf
    fin_cases hf <;> exact fun _ _ => rfl
  independent := by
    simp [fields, RecordField.optional, RecordField.present, RecordField.independent_iff]

/-- A field channel whose members have all been read. -/
def toDraft (d : FieldDef Float) : Draft where
  field := some d.field
  type := some d.type
  rest := d

theorem toJson_eq (d : FieldDef Float) : d.toJson = record.toJson d.toDraft := by
  simp only [toJson, Record.toJson, Record.toMembers, record, fields, List.flatMap_cons, List.flatMap_nil,
    List.append_nil, List.append_assoc]
  rfl

/-- The parts of a field channel are restored. Its texts, its type and its legend always are. -/
structure IsRestorable (d : FieldDef Float) : Prop where
  bin : ∀ bin, d.bin = some bin → Json.Restores Bin.read Bin.toJson bin
  scale : ∀ config, d.scale = some (.enabled config) → ScaleOptions.record.Restores config.options
  axis : ∀ config, d.axis = some (.enabled config) → AxisConfig.record.Restores config

/-- The parts of a field channel that was read are restored. -/
theorem isRestorable_of_ofMembers {members : List (String × Json)} {d : FieldDef Float}
    (hmembers : ∀ m ∈ members, m.2.WellFormed) (h : ofMembers members = .ok d) : d.IsRestorable := by
  obtain ⟨draft, hdraft, h⟩ := Outcome.bind_eq_ok_iff.mp h
  obtain ⟨field, -, h⟩ := Outcome.bind_eq_ok_iff.mp h
  obtain ⟨type, -, h⟩ := Outcome.bind_eq_ok_iff.mp h
  cases h
  have hsource := Record.exists_read (r := record) hmembers hdraft
  simp only [record, fields, List.forall_mem_cons] at hsource
  obtain ⟨-, -, -, -, hbin, hscale, haxis, -⟩ := hsource
  refine ⟨fun bin hset => ?_, fun config hset => ?_, fun config hset => ?_⟩
  · obtain ⟨j, hj, hread⟩ := hbin bin hset
    exact Bin.roundTrips j bin hj ((Json.readOptional_eq_some_iff nofun).mp hread)
  · obtain ⟨j, hj, hread⟩ := hscale _ hset
    obtain ⟨part, hpart, hsome⟩ := Outcome.map_eq_ok_iff.mp hread
    cases hsome
    exact Configurable.of_read (P := fun c : ScaleConfig Float => ScaleOptions.record.Restores c.options)
      ScaleOptions.record.restores_start (fun _ => ScaleConfig.restores_of_read hj) hpart
  · obtain ⟨j, hj, hread⟩ := haxis _ hset
    obtain ⟨part, hpart, hsome⟩ := Outcome.map_eq_ok_iff.mp hread
    cases hsome
    exact Configurable.of_read AxisConfig.record.restores_start (fun _ => AxisConfig.restores_of_read hj) hpart

/-- A field channel whose parts are restored is restored. -/
theorem IsRestorable.restores {d : FieldDef Float} (h : d.IsRestorable) : record.Restores d.toDraft := by
  unfold Record.Restores
  simp only [record, fields, List.forall_mem_cons]
  refine ⟨?field, ?type, ?format, ?title, ?bin, ?scale, ?axis, ?legend, nofun⟩
  case field => exact RecordField.present_restores_iff.mpr fun s _ => Json.restores_string s
  case type => exact RecordField.present_restores_iff.mpr fun t _ => DataType.restores t
  case format | title =>
    exact (RecordField.optional_restores_iff Json.refusesNull_string).mpr fun s _ => Json.restores_string s
  case legend => exact (RecordField.optional_restores_iff Json.refusesNull_bool).mpr fun b _ => Json.restores_bool b
  case bin => exact (RecordField.optional_restores_iff nofun).mpr h.bin
  case scale =>
    refine RecordField.present_restores_iff.mpr fun part hpart => ?_
    refine Configurable.restores (fun _ => ⟨_, rfl⟩) fun config hon => ?_
    exact ScaleConfig.restores_toJson (h.scale config (hon ▸ hpart))
  case axis =>
    refine RecordField.present_restores_iff.mpr fun part hpart => ?_
    refine Configurable.restores (fun _ => ⟨_, rfl⟩) fun config hon => ?_
    exact AxisConfig.restores_toJson (h.axis config (hon ▸ hpart))

/-- A field channel whose parts are restored is read back from its members. -/
theorem IsRestorable.ofMembers_eq {d : FieldDef Float} (h : d.IsRestorable) :
    ofMembers (Json.sortMembers ((record.toMembers d.toDraft).map fun m => (m.1, m.2.canonical))) = .ok d := by
  obtain ⟨draft, hdraft, hfields⟩ := Record.exists_restored h.restores
    (fun f hf m hm => List.mem_flatMap.mpr ⟨f, hf, hm⟩) (fun m hm => Or.inl (List.mem_flatMap.mp hm))
  simp only [record, fields, List.forall_mem_cons] at hfields
  obtain ⟨hfield, htype, hformat, htitle, hbin, hscale, haxis, hlegend, -⟩ := hfields
  have hrequired : Json.required "field" draft.field = .ok d.field ∧ Json.required "type" draft.type = .ok d.type :=
    ⟨Json.required_eq_ok_iff.mpr hfield, Json.required_eq_ok_iff.mpr htype⟩
  unfold ofMembers
  refine Outcome.bind_eq_ok_iff.mpr ⟨draft, hdraft, ?_⟩
  refine Outcome.bind_eq_ok_iff.mpr ⟨_, hrequired.1, Outcome.bind_eq_ok_iff.mpr ⟨_, hrequired.2, ?_⟩⟩
  exact congrArg Except.ok (FieldDef.ext rfl rfl hformat htitle hbin hscale haxis hlegend)

/-- Completion decides nothing that is not restored. -/
theorem IsRestorable.complete {d : FieldDef Float} (h : d.IsRestorable) (role : ChannelRole) (isLocal : Bool) :
    (d.complete role isLocal).toDef.IsRestorable := by
  refine ⟨h.bin, fun config hset => ?_, fun config hset => ?_⟩
  · have hscale := Configurable.ofOption_eq_enabled (Option.some.inj hset)
    obtain ⟨c, hc, rfl⟩ := Option.map_eq_some_iff.mp hscale
    obtain ⟨asked, hasked, -, hoptions⟩ := exists_asked_of_completeScale hc
    show ScaleOptions.record.Restores c.options
    rw [hoptions]
    refine ScaleOptions.restores_completed ?_ c.family
    exact Configurable.of_orDefault (P := fun c : ScaleConfig Float => ScaleOptions.record.Restores c.options)
      ScaleOptions.record.restores_start h.scale hasked
  · have haxis := Configurable.ofOption_eq_enabled (Option.some.inj hset)
    obtain ⟨a, ha, rfl⟩ := Option.map_eq_some_iff.mp haxis
    change d.completeAxis role = some a at ha
    unfold completeAxis at ha
    split at ha
    · obtain ⟨asked, hasked, rfl⟩ := Option.map_eq_some_iff.mp ha
      refine AxisConfig.restores_complete ?_ role d.resolvedTitle d.format
      exact Configurable.of_orDefault AxisConfig.record.restores_start h.axis hasked
    · nomatch ha

end FieldDef

/-! ## Definitions -/

namespace ChannelDef

/-- The value of a constant as a record. -/
def constantRecord : Record (Option (Value Float)) where
  start := none
  take := takeConstant
  fields := [.present "value" Value.read Value.toJson id fun _ x => x]
  take_field := by
    simp only [List.forall_mem_cons]
    refine ⟨fun _ _ => ?_, nofun⟩
    rw [RecordField.bind_present]
    rfl
  take_other := by
    intro name hname v j v' h
    unfold takeConstant at h
    split at h
    · exact absurd (by simp [RecordField.present]) hname
    · nomatch h
  get_start := by
    simp only [List.forall_mem_cons]
    exact ⟨rfl, nofun⟩
  get_set := by
    simp only [List.forall_mem_cons]
    exact ⟨fun _ _ => rfl, nofun⟩
  independent := List.pairwise_singleton _ _

/-- Whether an object has a member decides what it defines. -/
theorem read_object (members : List (String × Json)) :
    read (.object members) =
      match members.any (fun m => m.1 == "field"), members.any (fun m => m.1 == "value") with
      | true, true => .error .fieldAndValue
      | false, true => (constantOfMembers members).map constant
      | _, false => (FieldDef.ofMembers members).map field := by
  show (match members.any (fun m => m.1 == "field"), members.any (fun m => m.1 == "value") with
    | true, true => throw .fieldAndValue
    | false, true => do return .constant (← constantOfMembers members)
    | _, false => do return .field (← FieldDef.ofMembers members) : Except Mismatch (ChannelDef Float)) = _
  split
  · rfl
  · cases constantOfMembers members <;> rfl
  · cases FieldDef.ofMembers members <;> rfl

theorem any_eq_mem_keys (members : List (String × Json)) (name : String) :
    (members.any fun m => m.1 == name) = decide (name ∈ members.map Prod.fst) := by
  rw [Bool.eq_iff_iff]
  simp [List.any_eq_true]

/-- A definition that was read is an object, that of a constant or that of a field channel. -/
theorem read_eq_ok {j : Json} {d : ChannelDef Float} (h : read j = .ok d) :
    ∃ members, j = .object members ∧
      ((∃ v, constantOfMembers members = .ok v ∧ d = .constant v) ∨
        ∃ f, FieldDef.ofMembers members = .ok f ∧ d = .field f) := by
  cases j with
  | object members =>
    refine ⟨members, rfl, ?_⟩
    rw [read_object] at h
    split at h
    · nomatch h
    · obtain ⟨v, hv, rfl⟩ := Outcome.map_eq_ok_iff.mp h
      exact Or.inl ⟨v, hv, rfl⟩
    · obtain ⟨f, hf, rfl⟩ := Outcome.map_eq_ok_iff.mp h
      exact Or.inr ⟨f, hf, rfl⟩
  | _ => nomatch h

/-- A constant that was read is restored. -/
theorem restores_constant {members : List (String × Json)} {v : Value Float}
    (hmembers : ∀ m ∈ members, m.2.WellFormed) (h : constantOfMembers members = .ok v) :
    Json.Restores read toJson (.constant v) := by
  obtain ⟨v?, hv?, h⟩ := Outcome.bind_eq_ok_iff.mp h
  cases Json.required_eq_ok_iff.mp h
  obtain ⟨j, hj, hread⟩ := Record.exists_read (r := constantRecord) hmembers hv? _ (List.mem_singleton_self _) v rfl
  obtain ⟨w, hw, hwv⟩ := Outcome.map_eq_ok_iff.mp hread
  cases hwv
  have hrestored : Value.read v.toJson.canonical = .ok v := Value.roundTrips j v hj hw
  show read (.object [("value", v.toJson.canonical)]) = .ok (.constant v)
  have hconstant : constantOfMembers [("value", v.toJson.canonical)] = .ok v :=
    Outcome.bind_eq_ok_iff.mpr ⟨some v, Outcome.bind_eq_ok_iff.mpr ⟨some v,
      Outcome.bind_eq_ok_iff.mpr ⟨v, hrestored, rfl⟩, rfl⟩, rfl⟩
  rw [read_object]
  show (constantOfMembers [("value", v.toJson.canonical)]).map constant = .ok (.constant v)
  rw [hconstant]
  rfl

/-- A field channel whose parts are restored is restored. -/
theorem restores_field {d : FieldDef Float} (h : d.IsRestorable) : Json.Restores read toJson (.field d) := by
  unfold Json.Restores
  rw [toJson, FieldDef.toJson_eq, Record.toJson, Json.canonical_object, read_object, any_eq_mem_keys,
    any_eq_mem_keys, h.ofMembers_eq]
  have hfield : "field" ∈ (Json.sortMembers
      ((FieldDef.record.toMembers d.toDraft).map fun m => (m.1, m.2.canonical))).map Prod.fst := by
    have hmem : ("field", .string d.field) ∈ FieldDef.record.toMembers d.toDraft :=
      List.mem_flatMap.mpr ⟨_, List.mem_cons_self, Json.mem_optionalMember_iff.mpr ⟨d.field, rfl, rfl⟩⟩
    rw [Json.mem_keys_sortMembers, List.map_map]
    exact List.mem_map.mpr ⟨_, hmem, rfl⟩
  have hvalue : "value" ∉ (Json.sortMembers
      ((FieldDef.record.toMembers d.toDraft).map fun m => (m.1, m.2.canonical))).map Prod.fst := by
    intro hmem
    rw [Json.mem_keys_sortMembers, List.map_map] at hmem
    obtain ⟨m, hm, hname⟩ := List.mem_map.mp hmem
    have hknown := Record.mem_names_of_mem_toMembers hm
    rw [show m.1 = "value" from hname] at hknown
    exact absurd hknown (by decide)
  rw [decide_eq_true hfield, decide_eq_false hvalue]
  rfl

theorem toJson_toConfig (axis : CompleteAxisConfig Float) : axis.toConfig.toJson = axis.toJson := by
  simp only [AxisConfig.toJson, CompleteAxisConfig.toJson, CompleteAxisConfig.toConfig, Json.optionalMember,
    List.append_assoc, List.cons_append, List.nil_append]
  rfl

/-- The complete definition of a field channel is written like the definition that it stands for. -/
theorem toJson_complete (d : CompleteFieldDef Float) : (CompleteChannelDef.field d).toJson = d.toDef.toJson := by
  have hscale : Json.orFalse CompleteScaleConfig.toJson d.scale
      = Configurable.toJson ScaleConfig.toJson (.ofOption (d.scale.map (·.toConfig))) := by
    cases d.scale <;> rfl
  have haxis : Json.orFalse CompleteAxisConfig.toJson d.axis
      = Configurable.toJson AxisConfig.toJson (.ofOption (d.axis.map (·.toConfig))) := by
    cases d.axis with
    | none => rfl
    | some axis => exact (toJson_toConfig axis).symm
  rw [CompleteChannelDef.toJson, hscale, haxis]
  simp only [FieldDef.toJson, CompleteFieldDef.toDef, Json.optionalMember, List.append_assoc, List.cons_append,
    List.nil_append]

/-- A definition that is read from a tree is restored. If it is that of a field channel, its completion is written
as a tree that is read as the definition that the completion stands for. -/
theorem read_toJson_of_read {j : Json} {d : ChannelDef Float} (hj : j.HoldsNumerals) (h : read j.canonical = .ok d) :
    read d.toJson.canonical = .ok d ∧
    ∀ f, d = .field f → ∀ (role : ChannelRole) (isLocal : Bool),
      read (d.complete role isLocal).toJson.canonical = .ok (d.complete role isLocal).toDef := by
  obtain ⟨members, hobject, hread⟩ := read_eq_ok h
  have hwell := hj.wellFormed_canonical
  rw [hobject] at hwell
  cases hwell with
  | object hmembers _ =>
    rcases hread with ⟨v, hv, rfl⟩ | ⟨f, hf, rfl⟩
    · exact ⟨restores_constant hmembers hv, fun f hf => nomatch hf⟩
    · have hparts := FieldDef.isRestorable_of_ofMembers hmembers hf
      refine ⟨restores_field hparts, fun _ _ role isLocal => ?_⟩
      show read (CompleteChannelDef.field (f.complete role isLocal)).toJson.canonical = _
      rw [toJson_complete]
      exact restores_field (hparts.complete role isLocal)

/-- **Definitions survive JSON.** A definition that is read from a text, whatever spellings the text uses, is
written as a tree that is read as the same definition. If it is that of a field channel, then its completion for any
role and any clock is written as a tree too that is read as the definition that the completion stands for. -/
theorem read_toJson_of_parse {text : String} {j : Json} {d : ChannelDef Float} (htext : Json.parse text = .ok j)
    (h : read j.canonical = .ok d) :
    read d.toJson.canonical = .ok d ∧
    ∀ f, d = .field f → ∀ (role : ChannelRole) (isLocal : Bool),
      read (d.complete role isLocal).toJson.canonical = .ok (d.complete role isLocal).toDef :=
  read_toJson_of_read (Json.holdsNumerals_of_parse htext) h

/-- A definition in unusual spellings: a timestamp with an offset, records as arrays, `null` for an axis that is
off. -/
def appointments : String :=
  "\x7b\"type\": \"temporal\", \"field\": \"when\", \"axis\": null, \"bin\": [12], \"scale\": \x7b\"domain\": " ++
    "[\"2020-1-1 1:00:00 +01:00\", [2021, null, \"May\"]]\x7d\x7d"

/-- The tree of the text. -/
def appointmentsTree : Json :=
  .object [("type", .string "temporal"), ("field", .string "when"), ("axis", .null), ("bin", .array [.int 12]),
    ("scale", .object
      [("domain", .array [.string "2020-1-1 1:00:00 +01:00", .array [.int 2021, .null, .string "May"]])])]

/-- What the definition says. -/
def appointmentsDef : FieldDef Float where
  field := "when"
  type := .temporal
  bin := some (.params { maxbins := some 12 })
  scale := some (.enabled
    { options := ScaleOptions.empty.set .domain (some
        [.value (.dateTime { second := 1577836800, nano := 0 }),
         .date { year := some 2021, month := some (.name "May") }]) })
  axis := some .disabled

theorem parse_appointments : Json.parse appointments = .ok appointmentsTree := by cbv

theorem read_appointmentsTree : read appointmentsTree.canonical = .ok (.field appointmentsDef) := by cbv

/-- Each spelling is written in its usual form and read back, also after completion. -/
theorem read_toJson_of_parse_appointments :
    Json.parse appointments = .ok appointmentsTree ∧
    read appointmentsTree.canonical = .ok (.field appointmentsDef) ∧
    read appointmentsDef.toJson.canonical = .ok (.field appointmentsDef) ∧
    read ((ChannelDef.field appointmentsDef).complete .x true).toJson.canonical
      = .ok ((ChannelDef.field appointmentsDef).complete .x true).toDef := by
  obtain ⟨hrestored, hcomplete⟩ := read_toJson_of_parse parse_appointments read_appointmentsTree
  exact ⟨parse_appointments, read_appointmentsTree, hrestored, hcomplete _ rfl .x true⟩

end ChannelDef

end VisualEncoding
