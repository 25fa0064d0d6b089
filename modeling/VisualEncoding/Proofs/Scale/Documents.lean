import VisualEncoding.Scale.Document
import VisualEncoding.Proofs.Calendar.Descriptors
import VisualEncoding.Proofs.Scale.Completion
import VisualEncoding.Proofs.Value.Documents

/-!
# Scales in JSON

Settings with alternative forms are restored because the forms are told apart by their kind: a nice setting is a
truth value, a number, a text or an object, an interpolation a text or an object, and an entry of a domain is an
object only if it is a date by its parts. The options of a scale are a record with one field for each property
(`ScaleOptions.record`), and the family stands beside them.

> `ScaleConfig.restores_of_read`: every option of a scale that was read is restored.
> `ScaleConfig.restores_toJson`: a scale whose options are restored is restored.
> `ScaleOptions.restores_completed`: completion sets nothing that is not restored.
-/

namespace VisualEncoding

open Json (RecordField Record)

/-! ## Settings with alternative forms -/

namespace Nice

/-- The name and the step of an interval with a step. -/
def stepFields : List (RecordField (Option String × Option Float)) :=
  [.present "interval" Json.readString .string (·.1) fun parts x => (x, parts.2),
   .present "step" Json.readFloat .ofFloat (·.2) fun parts x => (parts.1, x)]

/-- An interval with a step as a record. -/
def stepRecord : Record (Option String × Option Float) where
  start := (none, none)
  take := takePart
  fields := stepFields
  take_field := by
    intro f hf
    fin_cases hf <;> intro parts j <;> rw [RecordField.bind_present] <;> rfl
  take_other := by
    intro name hname parts j parts' h
    unfold takePart at h
    split at h
    case h_3 => cases h; rfl
    all_goals exact absurd (by simp [stepFields, RecordField.present]) hname
  get_start := by
    intro f hf
    fin_cases hf <;> rfl
  get_set := by
    intro f hf
    fin_cases hf <;> exact fun _ _ => rfl
  independent := by
    simp [stepFields, RecordField.present, RecordField.independent_iff]

theorem stepFields_roundTrip : ∀ f ∈ stepRecord.fields, f.RoundTrips := by
  simp only [stepRecord, stepFields, List.forall_mem_cons]
  exact ⟨RecordField.present_roundTrips Json.roundTrips_string, RecordField.present_roundTrips Json.roundTrips_float,
    nofun⟩

theorem eq_of_stepFields {parts parts' : Option String × Option Float}
    (h : ∀ f ∈ stepRecord.fields, f.get parts' = f.get parts) : parts' = parts := by
  simp only [stepRecord, stepFields, List.forall_mem_cons] at h
  exact Prod.ext h.1 h.2.1

/-- An interval with a step is restored as a record. -/
theorem restores_of_readIntervalStep {j : Json} {nice : Nice Float} (hj : j.WellFormed)
    (h : readIntervalStep j = .ok nice) :
    ∃ name step, nice = .intervalStep name step ∧ Json.Restores readIntervalStep toJson (.intervalStep name step) := by
  obtain ⟨⟨name?, step?⟩, hparts, h⟩ := Outcome.bind_eq_ok_iff.mp h
  obtain ⟨name, hname, h⟩ := Outcome.bind_eq_ok_iff.mp h
  obtain ⟨step, hstep, h⟩ := Outcome.bind_eq_ok_iff.mp h
  cases h
  cases Json.required_eq_ok_iff.mp hname
  cases Json.required_eq_ok_iff.mp hstep
  have hread := stepRecord.roundTrips stepFields_roundTrip (fun _ _ => eq_of_stepFields) _ _ j _ hj hparts
  exact ⟨name, step, rfl, Outcome.bind_eq_ok_iff.mpr ⟨_, hread, rfl⟩⟩

/-- What is read as a nice setting is restored. -/
theorem roundTrips : Json.RoundTrips read toJson := by
  intro j nice hj h
  rcases Json.readUnion_eq_ok h with h | h
  · obtain ⟨on, -, rfl⟩ := Outcome.map_eq_ok_iff.mp h
    rfl
  rcases Json.readUnion_eq_ok h with h | h
  · obtain ⟨n, hn, rfl⟩ := Outcome.map_eq_ok_iff.mp h
    show read (Json.ofFloat n).canonical = .ok (.count n)
    rw [Json.ofFloat_of_isFinite (Json.isFinite_of_readFloat hj hn)]
    rfl
  rcases Json.readUnion_eq_ok h with h | h
  · obtain ⟨name, -, rfl⟩ := Outcome.map_eq_ok_iff.mp h
    rfl
  rcases Json.readUnion_eq_ok h with h | h
  · obtain ⟨name, step, rfl, hread⟩ := restores_of_readIntervalStep hj h
    unfold Json.Restores at hread ⊢
    rw [toJson, Json.canonical_object] at hread ⊢
    -- the other forms are no objects
    exact (Json.readUnion_of_error rfl).trans <| (Json.readUnion_of_error rfl).trans <|
      (Json.readUnion_of_error rfl).trans (Json.readUnion_of_ok hread)
  · exact absurd h Json.readUnion_nil

end Nice

namespace Interpolate

/-- The method and its parameter. -/
def paramFields : List (RecordField (Option String × Option Float)) :=
  [.present "type" Json.readString .string (·.1) fun parts x => (x, parts.2),
   .optional "gamma" Json.readFloat .ofFloat (·.2) fun parts x => (parts.1, x)]

/-- A method with parameters as a record. -/
def paramsRecord : Record (Option String × Option Float) where
  start := (none, none)
  take := takePart
  fields := paramFields
  take_field := by
    simp only [paramFields, List.forall_mem_cons]
    refine ⟨fun parts j => ?_, fun parts j => rfl, nofun⟩
    rw [RecordField.bind_present]
    rfl
  take_other := by
    intro name hname parts j parts' h
    unfold takePart at h
    split at h
    case h_3 => cases h; rfl
    all_goals exact absurd (by simp [paramFields, RecordField.present, RecordField.optional]) hname
  get_start := by
    intro f hf
    fin_cases hf <;> rfl
  get_set := by
    intro f hf
    fin_cases hf <;> exact fun _ _ => rfl
  independent := by
    simp [paramFields, RecordField.present, RecordField.optional, RecordField.independent_iff]

theorem paramFields_roundTrip : ∀ f ∈ paramsRecord.fields, f.RoundTrips := by
  simp only [paramsRecord, paramFields, List.forall_mem_cons]
  exact ⟨RecordField.present_roundTrips Json.roundTrips_string,
    RecordField.optional_roundTrips Json.refusesNull_float Json.roundTrips_float, List.forall_mem_nil _⟩

theorem eq_of_paramFields {parts parts' : Option String × Option Float}
    (h : ∀ f ∈ paramsRecord.fields, f.get parts' = f.get parts) : parts' = parts := by
  simp only [paramsRecord, paramFields, List.forall_mem_cons] at h
  exact Prod.ext h.1 h.2.1

/-- A method with parameters is restored as a record. -/
theorem restores_of_readParams {j : Json} {i : Interpolate Float} (hj : j.WellFormed)
    (h : readParams j = .ok i) :
    ∃ method gamma, i = .params method gamma ∧ Json.Restores readParams toJson (.params method gamma) := by
  obtain ⟨⟨method?, gamma⟩, hparts, h⟩ := Outcome.bind_eq_ok_iff.mp h
  obtain ⟨method, hmethod, h⟩ := Outcome.bind_eq_ok_iff.mp h
  cases h
  cases Json.required_eq_ok_iff.mp hmethod
  have hread := paramsRecord.roundTrips paramFields_roundTrip (fun _ _ => eq_of_paramFields) _ _ j _ hj hparts
  have hjson : (params method gamma).toJson = paramsRecord.toJson (some method, gamma) :=
    congrArg Json.object (congrArg _ (List.append_nil _).symm)
  refine ⟨method, gamma, rfl, ?_⟩
  unfold Json.Restores
  rw [hjson]
  exact Outcome.bind_eq_ok_iff.mpr ⟨_, hread, rfl⟩

/-- What is read as an interpolation is restored. -/
theorem roundTrips : Json.RoundTrips read toJson := by
  intro j i hj h
  rcases Json.readUnion_eq_ok h with h | h
  · obtain ⟨method, -, rfl⟩ := Outcome.map_eq_ok_iff.mp h
    rfl
  rcases Json.readUnion_eq_ok h with h | h
  · obtain ⟨method, gamma, rfl, hread⟩ := restores_of_readParams hj h
    unfold Json.Restores at hread ⊢
    rw [toJson, Json.canonical_object] at hread ⊢
    exact (Json.readUnion_of_error rfl).trans (Json.readUnion_of_ok hread)
  · exact absurd h Json.readUnion_nil

end Interpolate

/-- What is read as an entry of a domain is restored. Values are no objects, and dates by their parts are. -/
theorem DomainEntry.roundTrips : Json.RoundTrips read toJson := by
  intro j entry hj h
  rcases Json.readUnion_eq_ok h with h | h
  · obtain ⟨v, hv, rfl⟩ := Outcome.map_eq_ok_iff.mp h
    exact Json.readUnion_of_ok (congrArg (Except.map DomainEntry.value) (Value.roundTrips j v hj hv))
  rcases Json.readUnion_eq_ok h with h | h
  · obtain ⟨spec, hspec, rfl⟩ := Outcome.map_eq_ok_iff.mp h
    have hread := Calendar.DateSpec.roundTrips j spec hj hspec
    unfold Json.Restores at hread ⊢
    rw [Calendar.DateSpec.toJson, Json.canonical_object] at hread
    rw [toJson, Calendar.DateSpec.toJson, Json.canonical_object]
    exact (Json.readUnion_of_error rfl).trans
      (Json.readUnion_of_ok (congrArg (Except.map DomainEntry.date) hread))
  · exact absurd h Json.readUnion_nil

/-! ## Options -/

namespace ScaleProperty

theorem ofName?_name (p : ScaleProperty) : ofName? p.name = some p := by
  cases p <;> rfl

theorem name_injective : Function.Injective name := by
  intro p q h
  have hq := ofName?_name q
  rw [← h, ofName?_name] at hq
  exact Option.some.inj hq

theorem name_of_ofName? {name : String} {p : ScaleProperty} (h : ofName? name = some p) : p.name = name := by
  have hbeq := List.find?_some h
  exact eq_of_beq hbeq

end ScaleProperty

/-- Every setting is restored. -/
theorem Setting.roundTrips (p : ScaleProperty) : Json.RoundTrips (Setting.read p) (Setting.toJson p) := by
  cases p with
  | domain => exact Json.roundTrips_list DomainEntry.roundTrips
  | range => exact Json.roundTrips_list Value.roundTrips
  | reverse | clamp | zero | round => exact Json.roundTrips_bool
  | nice => exact Nice.roundTrips
  | interpolate => exact Interpolate.roundTrips
  | scheme | colorGroup => exact Json.roundTrips_string
  | bins =>
    -- bins are kept as they are written
    intro j bins hj h
    cases h
    exact congrArg Except.ok hj.canonical_eq
  | padding | paddingInner | paddingOuter | align | base | exponent | constant => exact Json.roundTrips_float

namespace ScaleOptions

/-- The field of a property. -/
def field (p : ScaleProperty) : RecordField (ScaleOptions Float) :=
  .optional p.name (Setting.read p) (Setting.toJson p) (·.setting p) fun o x => o.set p x

theorem independent_field {p q : ScaleProperty} (h : p ≠ q) : (field p).Independent (field q) where
  name_ne := fun hname => h (ScaleProperty.name_injective hname)
  get_set := fun o x => setting_set_of_ne o h.symm x
  get_set_symm := fun o x => setting_set_of_ne o h x

/-- The options of a scale as a record of its properties. -/
def record : Record (ScaleOptions Float) where
  start := {}
  take := take
  fields := ScaleProperty.all.map field
  take_field := by
    intro f hf o j
    obtain ⟨p, -, rfl⟩ := List.mem_map.mp hf
    show take o p.name j = _
    unfold take
    rw [ScaleProperty.ofName?_name]
    rfl
  take_other := by
    intro name hname o j o' h
    unfold take at h
    split at h
    next p hp =>
      have hmem : name ∈ (ScaleProperty.all.map field).map RecordField.name := by
        rw [List.map_map]
        exact List.mem_map.mpr ⟨p, ScaleProperty.mem_all p, ScaleProperty.name_of_ofName? hp⟩
      exact absurd hmem hname
    next => exact (Except.ok.inj h).symm
  get_start := by
    intro f hf
    obtain ⟨p, -, rfl⟩ := List.mem_map.mp hf
    exact setting_empty p
  get_set := by
    intro f hf o x
    obtain ⟨p, -, rfl⟩ := List.mem_map.mp hf
    exact setting_set_self o x
  independent := by
    refine List.pairwise_map.mpr (List.Pairwise.imp (fun h => independent_field h) ?_)
    exact (by decide : ScaleProperty.all.Nodup)

theorem toMembers_eq (o : ScaleOptions Float) : o.toMembers = record.toMembers o := by
  show _ = (ScaleProperty.all.map field).flatMap fun f => f.members o
  rw [List.flatMap_map]
  rfl

/-- Bins are kept as they are written, but `null` leaves them unset. -/
theorem bins_roundTrip : (field .bins).RoundTrips := by
  intro j bins hj hread
  have hkept : j = bins := by
    change Json.readOptional (fun j => .ok j) j = .ok (some bins) at hread
    unfold Json.readOptional at hread
    split at hread
    · nomatch hread
    · exact Option.some.inj (Except.ok.inj hread)
  subst hkept
  show (field .bins).read j.canonical = .ok (some j)
  rw [hj.canonical_eq]
  exact hread

theorem fields_roundTrip : ∀ f ∈ record.fields, f.RoundTrips := by
  intro f hf
  obtain ⟨p, -, rfl⟩ := List.mem_map.mp hf
  by_cases hbins : p = .bins
  · subst hbins
    exact bins_roundTrip
  · refine RecordField.optional_roundTrips ?_ (Setting.roundTrips p)
    cases p <;> first | exact absurd rfl hbins | nofun

theorem eq_of_fields {o o' : ScaleOptions Float} (h : ∀ f ∈ record.fields, f.get o' = f.get o) : o' = o :=
  ext_setting fun p => h (field p) (List.mem_map_of_mem (ScaleProperty.mem_all p))

/-- Completion sets nothing that is not restored. -/
theorem restores_completed {o : ScaleOptions Float} (h : record.Restores o) (family : ScaleFamily) :
    record.Restores (o.completed family) := by
  intro f hf
  obtain ⟨p, -, rfl⟩ := List.mem_map.mp hf
  intro x hx
  change (o.completed family).setting p = some x at hx
  rw [completed_setting] at hx
  unfold settledSetting at hx
  split at hx
  next =>
    cases hasked : o.setting p with
    | some value =>
      rw [hasked] at hx
      cases hx
      exact h _ hf x hasked
    | none =>
      -- a flag that is turned on
      rw [hasked, Option.none_or] at hx
      cases p <;> cases hx <;> rfl
  next => nomatch hx

end ScaleOptions

/-! ## Scales -/

namespace ScaleConfig

theorem mem_of_lastMember? {name : String} {members : List (String × Json)} {j : Json}
    (h : Json.lastMember? name members = some j) : (name, j) ∈ members := by
  obtain ⟨before, after, heq, -⟩ := List.lookup_eq_some_iff.mp h
  rw [← List.mem_reverse, heq]
  exact List.mem_append_right _ List.mem_cons_self

theorem not_mem_of_lastMember? {name : String} {members : List (String × Json)}
    (h : Json.lastMember? name members = none) : name ∉ members.map Prod.fst := by
  intro hmem
  obtain ⟨m, hm, rfl⟩ := List.mem_map.mp hmem
  have hne := List.lookup_eq_none_iff.mp h m (List.mem_reverse.mpr hm)
  exact absurd hne (by simp)

/-- The family among the members of a scale; the last member of that name counts. -/
def familyAmong (members : List (String × Json)) : Except Mismatch (Option ScaleFamily) :=
  match Json.lastMember? "type" members with
  | some j => Json.readOptional ScaleFamily.read j
  | none => .ok none

theorem read_object (members : List (String × Json)) :
    read (.object members) =
      (do return { family := ← familyAmong members, options := ← ScaleOptions.ofMembers members }) := by
  unfold read familyAmong
  dsimp only
  cases Json.lastMember? "type" members <;> rfl

/-- Every option of a scale that was read is restored. -/
theorem restores_of_read {j : Json} {c : ScaleConfig Float} (hj : j.WellFormed) (h : read j = .ok c) :
    ScaleOptions.record.Restores c.options := by
  cases hj with
  | object hmembers _ =>
    rw [read_object] at h
    obtain ⟨family, -, h⟩ := Outcome.bind_eq_ok_iff.mp h
    obtain ⟨options, hoptions, h⟩ := Outcome.bind_eq_ok_iff.mp h
    cases h
    exact Record.restores_of_foldlM ScaleOptions.fields_roundTrip hmembers hoptions
  | _ => nomatch h

/-- No property is called as the family is. -/
theorem type_not_mem_names : "type" ∉ ScaleOptions.record.fields.map RecordField.name := by
  decide

/-- The members of a scale are those of its options and that of its family, which sets no option. -/
theorem mem_members {family : Option ScaleFamily} {options : ScaleOptions Float} {m : String × Json}
    (h : m ∈ Json.optionalMember "type" ScaleFamily.toJson family ++ options.toMembers) :
    (∃ f ∈ ScaleOptions.record.fields, m ∈ f.members options) ∨ ∃ f, family = some f ∧ m = ("type", f.toJson) := by
  rcases List.mem_append.mp h with h | h
  · exact Or.inr (Json.mem_optionalMember_iff.mp h)
  · rw [ScaleOptions.toMembers_eq] at h
    exact Or.inl (List.mem_flatMap.mp h)

/-- The family is found where it is written. -/
theorem familyAmong_written (family : Option ScaleFamily) (options : ScaleOptions Float) :
    familyAmong (Json.sortMembers
      ((Json.optionalMember "type" ScaleFamily.toJson family ++ options.toMembers).map
        fun m => (m.1, m.2.canonical))) = .ok family := by
  unfold familyAmong
  split
  next j hj =>
    obtain ⟨m, hm, hmj⟩ := List.mem_map.mp (Json.mem_of_mem_sortMembers (mem_of_lastMember? hj))
    obtain ⟨hname, rfl⟩ := Prod.mk.inj hmj
    rcases mem_members hm with ⟨f, hf, hfm⟩ | ⟨f, rfl, rfl⟩
    · obtain ⟨x, -, rfl⟩ := Record.mem_members hfm
      exact absurd (hname ▸ List.mem_map_of_mem hf) type_not_mem_names
    · cases f <;> rfl
  next hnone =>
    cases family with
    | none => rfl
    | some f =>
      refine absurd ?_ (not_mem_of_lastMember? hnone)
      rw [Json.mem_keys_sortMembers, List.map_map]
      exact List.mem_map.mpr ⟨("type", f.toJson), List.mem_append_left _ (List.mem_singleton_self _), rfl⟩

/-- A scale whose options are restored is restored. -/
theorem restores_toJson {c : ScaleConfig Float} (h : ScaleOptions.record.Restores c.options) :
    Json.Restores read toJson c := by
  obtain ⟨family, options⟩ := c
  have hwritten : ∀ f ∈ ScaleOptions.record.fields, ∀ m ∈ f.members options,
      m ∈ Json.optionalMember "type" ScaleFamily.toJson family ++ options.toMembers := by
    intro f hf m hm
    rw [ScaleOptions.toMembers_eq]
    exact List.mem_append_right _ (List.mem_flatMap.mpr ⟨f, hf, hm⟩)
  obtain ⟨o, ho, hfields⟩ := Record.exists_restored h hwritten fun m hm => by
    refine (mem_members hm).imp_right fun ⟨f, _, hfamily⟩ => ?_
    subst hfamily
    exact ⟨type_not_mem_names, fun _ => rfl⟩
  cases ScaleOptions.eq_of_fields hfields
  unfold Json.Restores toJson
  rw [Json.canonical_object, read_object, familyAmong_written]
  have hoptions : ScaleOptions.ofMembers (Json.sortMembers
      ((Json.optionalMember "type" ScaleFamily.toJson family ++ options.toMembers).map
        fun m => (m.1, m.2.canonical))) = .ok options := ho
  rw [hoptions]
  rfl

end ScaleConfig

end VisualEncoding
