import VisualEncoding.Axis.Document
import VisualEncoding.Proofs.Json.Records
import VisualEncoding.Proofs.Value.Documents

/-!
# Axes in JSON

An axis is restored option by option (`AxisConfig.roundTrips`), whether it was an object or an array. What is asked
for about overlapping labels is a name or an object with a tag.
-/

namespace VisualEncoding

open Json (RecordField Record)

/-! ## Overlapping labels -/

namespace LabelStrategy

/-- The angle of a rotation as a record. -/
def angleRecord : Record (Option Float) where
  start := none
  take := takeAngle
  fields := [.present "labelAngle" Json.readFloat .ofFloat id fun _ x => x]
  take_field := by
    simp only [List.forall_mem_cons]
    refine ⟨fun parts j => ?_, nofun⟩
    rw [RecordField.bind_present]
    rfl
  take_other := by
    intro name hname angle j angle' h
    unfold takeAngle at h
    split at h
    case h_2 => cases h; rfl
    case h_1 => exact absurd (by simp [RecordField.present]) hname
  get_start := by
    simp only [List.forall_mem_cons]
    exact ⟨rfl, nofun⟩
  get_set := by
    simp only [List.forall_mem_cons]
    exact ⟨fun _ _ => rfl, nofun⟩
  independent := List.pairwise_singleton _ _

theorem fields_roundTrip : ∀ f ∈ angleRecord.fields, f.RoundTrips := by
  simp only [angleRecord, List.forall_mem_cons]
  exact ⟨RecordField.present_roundTrips Json.roundTrips_float, nofun⟩

/-- The angle of a rotation that was read is finite. -/
theorem isFinite_of_readTagged {tag rest : Json} {angle : Float} (hrest : rest.WellFormed)
    (h : readTagged tag rest = .ok (.rotate angle)) : angle.isFinite = true := by
  unfold readTagged at h
  split at h
  · nomatch h
  · nomatch h
  · obtain ⟨angle?, hread, h⟩ := Outcome.bind_eq_ok_iff.mp h
    obtain ⟨x, hx, h⟩ := Outcome.bind_eq_ok_iff.mp h
    cases h
    cases Json.required_eq_ok_iff.mp hx
    have hrestored := Record.restores_of_readRecord (r := angleRecord) fields_roundTrip hrest hread
    have hangle := hrestored _ (List.mem_singleton_self _) angle rfl
    obtain ⟨y, hy, hya⟩ := Outcome.map_eq_ok_iff.mp hangle
    cases hya
    exact Json.restores_float_iff.mp hy
  · nomatch h

theorem isFinite_of_read {j : Json} {angle : Float} (hj : j.WellFormed) (h : read j = .ok (.rotate angle)) :
    angle.isFinite = true := by
  cases hj with
  | object hmembers hkeys =>
    unfold read at h
    dsimp only at h
    split at h
    · refine isFinite_of_readTagged (.object (fun m hm => ?_) ?_) h
      · exact hmembers m (List.mem_of_mem_filter hm)
      · exact hkeys.sublist ((List.filter_sublist).map Prod.fst)
    · nomatch h
  | @array items hitems =>
    cases items with
    | nil => nomatch h
    | cons tag rest => exact isFinite_of_readTagged (.array fun j hj => hitems j (List.mem_cons_of_mem _ hj)) h
  | _ => nomatch h

theorem canonical_rotate (angle : Float) :
    (rotate angle).toJson.canonical
      = .object [("labelAngle", (Json.ofFloat angle).canonical), ("strategy", .string "rotate")] := by
  have hlt : ("labelAngle" : String) < "strategy" := by decide
  rw [toJson, Json.canonical_object]
  exact congrArg Json.object (if_pos hlt)

theorem restores_rotate {angle : Float} (h : angle.isFinite = true) : Json.Restores read toJson (rotate angle) := by
  unfold Json.Restores
  rw [canonical_rotate, Json.ofFloat_of_isFinite h]
  rfl

/-- What is read as a strategy is restored. -/
theorem roundTrips : Json.RoundTrips read toJson := by
  intro j s hj h
  cases s with
  | flat => rfl
  | rotate angle => exact restores_rotate (isFinite_of_read hj h)

end LabelStrategy

theorem LabelShorthand.restores (s : LabelShorthand) :
    Json.Restores (Json.readNamed LabelShorthand.named) LabelShorthand.toJson s := by
  cases s <;> rfl

theorem AxisOrient.restores (o : AxisOrient) :
    Json.Restores (Json.readNamed AxisOrient.named) AxisOrient.toJson o := by
  cases o <;> rfl

namespace LabelOverlap

theorem restores_shorthand (s : LabelShorthand) : Json.Restores read toJson (.shorthand s) :=
  Json.readUnion_of_ok (congrArg (Except.map shorthand) (LabelShorthand.restores s))

/-- A strategy is not mistaken for the name of one. -/
theorem restores_strategy {s : LabelStrategy Float} (h : Json.Restores LabelStrategy.read LabelStrategy.toJson s) :
    Json.Restores read toJson (.strategy s) := by
  cases s with
  | flat => rfl
  | rotate angle =>
    unfold Json.Restores at h ⊢
    show read (LabelStrategy.rotate angle).toJson.canonical = _
    rw [LabelStrategy.canonical_rotate] at h ⊢
    -- a name stands alone or with one member
    exact (Json.readUnion_of_error rfl).trans (Json.readUnion_of_ok (congrArg (Except.map LabelOverlap.strategy) h))

theorem restores_defaultAngle :
    Json.Restores LabelStrategy.read LabelStrategy.toJson (.rotate defaultAngle) :=
  LabelStrategy.restores_rotate (Double.isFinite_floatOfInt (n := 40) (by decide))

/-- The strategy that is chosen for a role is restored. -/
theorem restores_resolve {overlap : LabelOverlap Float} (h : Json.Restores read toJson overlap) (role : ChannelRole) :
    Json.Restores read toJson (.strategy (overlap.resolve role)) := by
  cases overlap with
  | strategy s => exact h
  | shorthand s =>
    refine restores_strategy ?_
    cases s with
    | flat => rfl
    | rotate => exact restores_defaultAngle
    | auto =>
      show Json.Restores LabelStrategy.read LabelStrategy.toJson (if role.isX then .rotate defaultAngle else .flat)
      split
      · exact restores_defaultAngle
      · rfl

/-- What is asked for about overlapping labels is restored. -/
theorem roundTrips : Json.RoundTrips read toJson := by
  intro j overlap hj h
  rcases Json.readUnion_eq_ok h with h | h
  · obtain ⟨s, -, rfl⟩ := Outcome.map_eq_ok_iff.mp h
    exact restores_shorthand s
  rcases Json.readUnion_eq_ok h with h | h
  · obtain ⟨s, hs, rfl⟩ := Outcome.map_eq_ok_iff.mp h
    exact restores_strategy (LabelStrategy.roundTrips j s hj hs)
  · exact absurd h Json.readUnion_nil

end LabelOverlap

/-! ## Axes -/

namespace AxisConfig

/-- The options of an axis. -/
def fields : List (RecordField (AxisConfig Float)) :=
  [.optional "format" Json.readString .string (·.format) fun a x => { a with format := x },
   .optional "labelAngle" Json.readFloat .ofFloat (·.labelAngle) fun a x => { a with labelAngle := x },
   .optional "labelFlush" Json.readBool .bool (·.labelFlush) fun a x => { a with labelFlush := x },
   .optional "labelOverlap" LabelOverlap.read LabelOverlap.toJson (·.labelOverlap)
     fun a x => { a with labelOverlap := x },
   .optional "labelPadding" Json.readFloat .ofFloat (·.labelPadding) fun a x => { a with labelPadding := x },
   .optional "orient" (Json.readNamed AxisOrient.named) AxisOrient.toJson (·.orient)
     fun a x => { a with orient := x },
   .optional "tickCount" Json.readWord (fun n : Nat => .int n) (·.tickCount) fun a x => { a with tickCount := x },
   .optional "ticks" Json.readBool .bool (·.ticks) fun a x => { a with ticks := x },
   .optional "title" Json.readString .string (·.title) fun a x => { a with title := x },
   .optional "titlePadding" Json.readFloat .ofFloat (·.titlePadding) fun a x => { a with titlePadding := x },
   .optional "values" (Json.readList Value.read) (fun vs => .array (vs.map Value.toJson)) (·.values)
     fun a x => { a with values := x }]

/-- An axis as a record of its options. -/
def record : Record (AxisConfig Float) where
  start := {}
  take := take
  fields := fields
  take_field := by
    intro f hf
    fin_cases hf <;> intro _ _ <;> rfl
  take_other := by
    intro name hname axis j axis' h
    unfold take at h
    split at h
    case h_12 => cases h; rfl
    all_goals exact absurd (by simp [fields, RecordField.optional]) hname
  get_start := by
    intro f hf
    fin_cases hf <;> rfl
  get_set := by
    intro f hf
    fin_cases hf <;> exact fun _ _ => rfl
  independent := by
    simp [fields, RecordField.optional, RecordField.independent_iff]

theorem toJson_eq : toJson = record.toJson := by
  funext axis
  simp only [toJson, Record.toJson, Record.toMembers, record, fields, List.flatMap_cons, List.flatMap_nil,
    List.append_nil, List.append_assoc]
  rfl

theorem fields_roundTrip : ∀ f ∈ record.fields, f.RoundTrips := by
  simp only [record, fields, List.forall_mem_cons]
  exact ⟨RecordField.optional_roundTrips Json.refusesNull_string Json.roundTrips_string,
    RecordField.optional_roundTrips Json.refusesNull_float Json.roundTrips_float,
    RecordField.optional_roundTrips Json.refusesNull_bool Json.roundTrips_bool,
    RecordField.optional_roundTrips nofun LabelOverlap.roundTrips,
    RecordField.optional_roundTrips Json.refusesNull_float Json.roundTrips_float,
    RecordField.optional_roundTrips nofun fun _ orient _ _ => AxisOrient.restores orient,
    RecordField.optional_roundTrips Json.refusesNull_word Json.roundTrips_word,
    RecordField.optional_roundTrips Json.refusesNull_bool Json.roundTrips_bool,
    RecordField.optional_roundTrips Json.refusesNull_string Json.roundTrips_string,
    RecordField.optional_roundTrips Json.refusesNull_float Json.roundTrips_float,
    RecordField.optional_roundTrips nofun (Json.roundTrips_list Value.roundTrips), nofun⟩

theorem eq_of_fields {axis axis' : AxisConfig Float} (h : ∀ f ∈ record.fields, f.get axis' = f.get axis) :
    axis' = axis := by
  simp only [record, fields, List.forall_mem_cons] at h
  obtain ⟨hformat, hangle, hflush, hoverlap, hpadding, horient, hcount, hticks, htitle, htitlePadding, hvalues, -⟩ := h
  exact AxisConfig.ext hformat hangle hflush hoverlap hpadding horient hcount hticks htitle htitlePadding hvalues

/-- Every option of an axis that was read is restored. -/
theorem restores_of_read {j : Json} {axis : AxisConfig Float} (hj : j.WellFormed) (h : read j = .ok axis) :
    record.Restores axis :=
  Record.restores_of_readRecord fields_roundTrip hj h

/-- An axis whose options are restored is restored. -/
theorem restores_toJson {axis : AxisConfig Float} (h : record.Restores axis) : Json.Restores read toJson axis := by
  rw [toJson_eq]
  exact Record.restores_toJson h (fun _ => eq_of_fields) _ _

/-! ### Completion -/

/-- The options that completion decides are restored, those of the definition and the defaults. -/
theorem restores_complete {axis : AxisConfig Float} (h : record.Restores axis) (role : ChannelRole) (title : String)
    (format : Option String) : record.Restores (axis.complete role title format).toConfig := by
  unfold Record.Restores at h ⊢
  simp only [record, fields, List.forall_mem_cons] at h ⊢
  obtain ⟨-, hangle, -, hoverlap, hpadding, -, hcount, -, -, htitlePadding, hvalues, -⟩ := h
  refine ⟨?format, ?angle, ?flush, ?overlap, ?padding, ?orient, ?count, ?ticks, ?title, ?titlePadding, hvalues, nofun⟩
  case format | title =>
    exact (RecordField.optional_restores_iff Json.refusesNull_string).mpr fun s _ => Json.restores_string s
  case flush | ticks =>
    exact (RecordField.optional_restores_iff Json.refusesNull_bool).mpr fun b _ => Json.restores_bool b
  case orient =>
    exact (RecordField.optional_restores_iff nofun).mpr fun orient _ => AxisOrient.restores orient
  case angle =>
    exact RecordField.optional_restores_getD Json.refusesNull_float hangle rfl
      (Json.restores_floatOfInt (n := 0) (by decide))
  case padding =>
    exact RecordField.optional_restores_getD Json.refusesNull_float hpadding rfl
      (Json.restores_floatOfInt (n := 4) (by decide))
  case titlePadding =>
    exact RecordField.optional_restores_getD Json.refusesNull_float htitlePadding rfl
      (Json.restores_floatOfInt (n := 4) (by decide))
  case count =>
    exact RecordField.optional_restores_getD Json.refusesNull_word hcount rfl (Json.restores_word (by decide))
  case overlap =>
    -- not the name that was asked for is written, but the strategy that it comes down to
    refine (RecordField.optional_restores_iff nofun).mpr fun overlap hoverlap' => ?_
    cases hoverlap'
    exact LabelOverlap.restores_resolve
      (Json.restores_getD ((RecordField.optional_restores_iff nofun).mp hoverlap) (LabelOverlap.restores_shorthand _))
      role

end AxisConfig

end VisualEncoding
