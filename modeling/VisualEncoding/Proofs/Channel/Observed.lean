import Mathlib.Data.Prod.Lex
import VisualEncoding.Chart.ChannelEncoder
import VisualEncoding.Proofs.Order.Extent
import VisualEncoding.Proofs.Scale.ContinuousEnds
import VisualEncoding.Proofs.Value.Numbers

/-!
# Observed domains

The domain that a channel observes is made for the scales that its type of field can have: two ends that have
places on an axis where the field holds numbers or instants, else categories. A scale of an inferred family is
one of these (`infer?_cases`).
-/

namespace VisualEncoding

/-- What inference can come to: scales of categories for every type, and axes for the type of their field. -/
theorem ScaleFamily.infer?_cases {α : Type} {role : ChannelRole} {type : DataType} {bin : Option (Bin α)}
    {isLocal : Bool} {f : ScaleFamily} (h : infer? role type bin isLocal = some f) :
    f = .ordinal ∨ f.isBanded = true ∨
      type = .quantitative ∧ (f = .linear ∨ f = .quantize ∨ f = .binOrdinal) ∨
      type = .temporal ∧ (f = .time ∨ f = .utc) := by
  unfold infer? at h
  split at h
  · nomatch h
  · cases type with
    | nominal | ordinal =>
      cases h
      unfold forCategories
      cases role <;> first | exact Or.inl rfl | exact Or.inr (Or.inl rfl)
    | quantitative =>
      cases h
      have hnumbers : forNumbers role bin = .ordinal ∨ forNumbers role bin = .linear ∨
          forNumbers role bin = .quantize ∨ forNumbers role bin = .binOrdinal := by
        unfold forNumbers
        split
        · exact Or.inl rfl
        · cases bin with
          | none => exact Or.inr (Or.inl rfl)
          | some bin =>
            dsimp only
            split
            · split
              · exact Or.inr (Or.inr (Or.inl rfl))
              · exact Or.inr (Or.inr (Or.inr rfl))
            · exact Or.inr (Or.inl rfl)
      exact hnumbers.imp_right fun hf => Or.inr (Or.inl ⟨rfl, hf⟩)
    | temporal =>
      cases h
      split
      · exact Or.inl rfl
      · refine Or.inr (Or.inr (Or.inr ⟨rfl, ?_⟩))
        cases isLocal
        · exact Or.inr rfl
        · exact Or.inl rfl
    | geojson => nomatch h

/-- Scales of time are inferred for fields of instants alone. -/
theorem ScaleFamily.temporal_of_infer? {α : Type} {role : ChannelRole} {type : DataType}
    {bin : Option (Bin α)} {isLocal : Bool} {f : ScaleFamily} (h : infer? role type bin isLocal = some f)
    (htime : f.isTime = true) : type = .temporal := by
  rcases infer?_cases h with rfl | hbanded | ⟨-, rfl | rfl | rfl⟩ | ⟨htype, -⟩
  · nomatch htime
  · unfold isBanded at hbanded
    rw [Bool.or_eq_true, beq_iff_eq, beq_iff_eq] at hbanded
    rcases hbanded with rfl | rfl <;> nomatch htime
  · nomatch htime
  · nomatch htime
  · nomatch htime
  · exact htype

variable {α : Type} [Scalar α]

namespace CompleteScaleConfig

variable {c : CompleteScaleConfig α}

omit [Scalar α] in
theorem isOpen_iff : c.isOpen = true ↔ c.setting .domain = none := Option.isNone_iff_eq_none

omit [Scalar α] in
theorem withDomain_eq (values : List (Value α)) :
    c.withDomain values = c.withSetting .domain (values.map .value) := rfl

theorem numberOfEntry_value {isTime : Bool} {v : Value α} {x : α} (h : v.place? isTime = some x) :
    c.numberOfEntry isTime (.value v) = .ok x := by
  unfold Value.place? at h
  unfold numberOfEntry
  dsimp only
  rw [h]
  rfl

/-- A domain of values is read where they have their places. -/
theorem numericDomain?_withDomain {isTime : Bool} {u v : Value α} {x y : α}
    (hu : u.place? isTime = some x) (hv : v.place? isTime = some y) :
    (c.withDomain [u, v]).numericDomain? isTime = .ok (some [x, y]) := by
  unfold numericDomain?
  rw [withDomain_eq, setting_withSetting_self]
  have hread : [DomainEntry.value u, .value v].mapM (numberOfEntry (c.withDomain [u, v]) isTime) = .ok [x, y] :=
    Outcome.mapM_eq_ok_iff.mpr (.cons (numberOfEntry_value hu) (.cons (numberOfEntry_value hv) .nil))
  show Except.map some ([DomainEntry.value u, .value v].mapM _) = _
  rw [← withDomain_eq, hread]
  rfl

omit [Scalar α] in
/-- Two ends in the direction of a config. -/
theorem orient_pair {β : Type} (x y : β) : c.orient [x, y] = if c.isReversed then [y, x] else [x, y] := rfl

omit [Scalar α] in
theorem exists_orient_pair {β : Type} (x y : β) : ∃ a b, c.orient [x, y] = [a, b] := by
  rw [orient_pair]
  split <;> exact ⟨_, _, rfl⟩

end CompleteScaleConfig

/-! ## Datasets -/

/-- Instants are in the order of their seconds and, within one, of their fractions. -/
theorem Calendar.Instant.before_eq (t t' : Calendar.Instant) :
    t.before t' = decide (toLex (t.second, t.nano) < toLex (t'.second, t'.nano)) := by
  refine decide_eq_decide.mpr ?_
  rw [Prod.Lex.toLex_lt_toLex]

/-- The numbers that a field shows in a dataset. -/
def FieldDef.numbers (d : FieldDef α) (dataset : List (Datum α)) : List α :=
  dataset.filterMap fun datum => (datum.get d.field).toNumber?

/-- The instants that a field shows in a dataset. -/
def FieldDef.instants (d : FieldDef α) (dataset : List (Datum α)) : List Calendar.Instant :=
  dataset.filterMap fun datum => (datum.get d.field).toInstant?

omit [Scalar α] in
theorem filterMap_observed {β : Type} {f : Value α → Option β} (hnull : f .null = none) (field : String)
    (dataset : List (Datum α)) :
    ((dataset.map fun datum => datum.get field).filter fun v => !v.isNull).filterMap f
      = dataset.filterMap fun datum => f (datum.get field) := by
  rw [List.filterMap_filter, List.filterMap_map]
  refine List.filterMap_congr fun datum _ => ?_
  show (if !(datum.get field).isNull then f (datum.get field) else none) = f (datum.get field)
  cases datum.get field with
  | null => exact hnull.symm
  | _ => rfl

namespace CompleteFieldDef

variable {β : Type}

/-- What can be read of a field in the rows of a dataset. -/
def readings (d : CompleteFieldDef α) (read? : Value α → Option β) (dataset : List (Datum α)) : List β :=
  dataset.filterMap fun datum => read? (datum.get d.field)

/-- The values that a field shows in the rows of a dataset, without those that are missing. -/
def shown (d : CompleteFieldDef α) (dataset : List (Datum α)) : List (Value α) :=
  (dataset.map fun datum => datum.get d.field).filter fun v => !v.isNull

variable {d : CompleteFieldDef α}

/-- A field of numbers shows the least and the greatest of them. -/
theorem observedDomain_eq_of_quantitative (htype : d.type = .quantitative) (dataset : List (Datum α)) :
    (CompleteChannelDef.field d).observedDomain dataset
      = CompleteChannelDef.ends .number
          (Order.extent? (fun x y => decide (x < y)) (d.readings Value.toNumber? dataset)) := by
  show CompleteChannelDef.span d.type _ = _
  rw [htype, readings, ← filterMap_observed rfl]
  rfl

/-- A field of instants shows the first and the last of them. -/
theorem observedDomain_eq_of_temporal (htype : d.type = .temporal) (dataset : List (Datum α)) :
    (CompleteChannelDef.field d).observedDomain dataset
      = CompleteChannelDef.ends .dateTime
          (Order.extent? Calendar.Instant.before (d.readings Value.toInstant? dataset)) := by
  show CompleteChannelDef.span d.type _ = _
  rw [htype, readings, ← filterMap_observed rfl]
  rfl

/-- A field of categories shows these. -/
theorem observedDomain_eq_of_categories (htype : d.type = .nominal ∨ d.type = .ordinal ∨ d.type = .geojson)
    (dataset : List (Datum α)) :
    (CompleteChannelDef.field d).observedDomain dataset = (Categories.ofList (d.shown dataset)).values := by
  show CompleteChannelDef.span d.type _ = _
  rcases htype with htype | htype | htype <;> rw [htype] <;> rfl

end CompleteFieldDef

variable {d : FieldDef α} {role : ChannelRole} {isLocal : Bool} {dataset : List (Datum α)}

theorem observedDomain_of_quantitative (htype : d.type = .quantitative) :
    CompleteChannelDef.observedDomain (.field (d.complete role isLocal)) dataset
      = CompleteChannelDef.ends .number
          (Order.extent? (fun x y => decide (x < y)) (d.numbers dataset)) :=
  CompleteFieldDef.observedDomain_eq_of_quantitative htype dataset

theorem observedDomain_of_temporal (htype : d.type = .temporal) :
    CompleteChannelDef.observedDomain (.field (d.complete role isLocal)) dataset
      = CompleteChannelDef.ends .dateTime
          (Order.extent? Calendar.Instant.before (d.instants dataset)) :=
  CompleteFieldDef.observedDomain_eq_of_temporal htype dataset

/-- The numbers that are shown are defined. -/
theorem FieldDef.isNaN_of_mem_numbers {x : α} (h : x ∈ d.numbers dataset) : Scalar.isNaN x = false := by
  obtain ⟨datum, -, hx⟩ := List.mem_filterMap.mp h
  exact Value.isNaN_of_toNumber? hx

end VisualEncoding
