import VisualEncoding.Proofs.Channel.Observed
import VisualEncoding.Proofs.Scalar.Ordered
import VisualEncoding.Proofs.Value.FirstSeen

/-!
# Tight domains

The domain that a field shows in a dataset holds what the rows show and no more. For numbers and instants it goes from
the least to the greatest of them (`IsTight`), which leaves no choice of the ends but between equals, so that the order
of the rows and how often they come makes no difference (`IsTight.congr`). For categories it has the first value of each
key.

> `CompleteFieldDef.observedDomain_tight`: so it is for every type of field and every dataset, whatever kinds of values
> the rows hold or miss.

Equal doubles may be two zeros. Domains of numbers are therefore the same as values are the same.
-/

namespace VisualEncoding

variable {α β γ : Type} [Scalar α]

/-! ## From the least to the greatest -/

/-- A domain goes from one of some items that is not above any to one that is not below any; if there are none, it is
the unit interval. -/
inductive IsTight (le : β → β → Prop) (wrap : β → Value α) (items : List β) : List (Value α) → Prop where
  | ends {lo hi : β} (lo_mem : lo ∈ items) (hi_mem : hi ∈ items) (between : ∀ x ∈ items, le lo x ∧ le x hi) :
    IsTight le wrap items [wrap lo, wrap hi]
  | unit (items_eq : items = []) : IsTight le wrap items [.number 0, .number 1]

variable {le : β → β → Prop} {wrap : β → Value α} {items items' : List β} {domain domain' : List (Value α)}

/-- The extent of items in the order of their keys is tight. -/
theorem isTight_ends [LinearOrder γ] {before : β → β → Bool} (key : β → γ)
    (hbefore : ∀ x ∈ items, ∀ y ∈ items, before x y = decide (key x < key y))
    (hle : ∀ x ∈ items, ∀ y ∈ items, key x ≤ key y → le x y) :
    IsTight le wrap items (CompleteChannelDef.ends wrap (Order.extent? before items)) := by
  cases hextent : Order.extent? before items with
  | none => exact .unit (Order.extent?_eq_none_iff.mp hextent)
  | some ends =>
    obtain ⟨lo, hi⟩ := ends
    obtain ⟨hlo, hhi⟩ := Order.mem_of_extent? hextent
    refine .ends hlo hhi fun x hx => ?_
    obtain ⟨habove, hbelow⟩ := Order.extent?_spans hbefore hextent x hx
    exact ⟨hle lo hlo x hx habove, hle x hx hi hhi hbelow⟩

/-- Tight domains of lists with the same items have the same ends, if items that are not above each other are the same
as values. -/
theorem IsTight.congr {same : Value α → Value α → Prop} (hsame : ∀ x : α, x = 0 ∨ x = 1 → same (.number x) (.number x))
    (hle : ∀ x ∈ items, ∀ y ∈ items, le x y → le y x → same (wrap x) (wrap y)) (hitems : ∀ x, x ∈ items' ↔ x ∈ items)
    (h : IsTight le wrap items domain) (h' : IsTight le wrap items' domain') : List.Forall₂ same domain' domain := by
  cases h with
  | ends hlo hhi hbetween =>
    cases h' with
    | ends hlo' hhi' hbetween' =>
      rw [hitems] at hlo' hhi'
      exact .cons (hle _ hlo' _ hlo (hbetween' _ ((hitems _).mpr hlo)).1 (hbetween _ hlo').1)
        (.cons (hle _ hhi' _ hhi (hbetween _ hhi').2 (hbetween' _ ((hitems _).mpr hhi)).2) .nil)
    | unit hempty' =>
      rw [← hitems, hempty'] at hlo
      nomatch hlo
  | unit hempty =>
    cases h' with
    | ends hlo' _ _ =>
      rw [hitems, hempty] at hlo'
      nomatch hlo'
    | unit _ => exact .cons (hsame 0 (.inl rfl)) (.cons (hsame 1 (.inr rfl)) .nil)

/-! ## Datasets with the same readings -/

namespace CompleteFieldDef

variable {d : CompleteFieldDef α} {read? : Value α → Option β} {dataset dataset' : List (Datum α)}

/-- A dataset has the rows of another one in some order, and more rows that say nothing new of a field: each of them is
one of those rows again, or its value is missing or cannot be read. -/
def AddsNothing (d : CompleteFieldDef α) (read? : Value α → Option β) (dataset dataset' : List (Datum α)) : Prop :=
  ∃ more : List (Datum α), (∀ datum ∈ more, datum ∈ dataset ∨ read? (datum.get d.field) = none) ∧
    dataset'.Perm (dataset ++ more)

omit [Scalar α] in
theorem mem_readings_of_addsNothing (h : d.AddsNothing read? dataset dataset') (x : β) :
    x ∈ d.readings read? dataset' ↔ x ∈ d.readings read? dataset := by
  obtain ⟨more, hmore, hperm⟩ := h
  unfold readings
  rw [(hperm.filterMap _).mem_iff, List.filterMap_append, List.mem_append]
  refine ⟨?_, Or.inl⟩
  rintro (hx | hx)
  · exact hx
  · obtain ⟨datum, hdatum, hread⟩ := List.mem_filterMap.mp hx
    rcases hmore datum hdatum with hrow | hnone
    · exact List.mem_filterMap.mpr ⟨datum, hrow, hread⟩
    · nomatch hnone.symm.trans hread

/-- Rows that come again show no new keys. -/
theorem ofList_shown_append {rows : List (Datum α)} (hrows : rows ⊆ dataset) :
    Categories.ofList (d.shown (dataset ++ rows)) = .ofList (d.shown dataset) := by
  have happend : d.shown (dataset ++ rows) = d.shown dataset ++ d.shown rows := by
    unfold shown
    rw [List.map_append, List.filter_append]
  rw [happend]
  refine Categories.ofList_append_of_keys fun v hv => ?_
  have hsubset : d.shown rows ⊆ d.shown dataset := List.filter_subset _ (List.map_subset _ hrows)
  exact List.mem_map_of_mem (hsubset hv)

end CompleteFieldDef

/-! ## Numbers, instants and categories -/

/-- Values are the same if each is equal to its partner. -/
theorem beq_of_forall₂ {us vs : List (Value Float)} (h : List.Forall₂ (fun u v => (u == v) = true) us vs) :
    (us == vs) = true := by
  induction h with
  | nil => rfl
  | cons huv _ ih => rw [List.cons_beq_cons, huv, ih, Bool.true_and]

namespace CompleteFieldDef

variable {d : CompleteFieldDef Float} {dataset : List (Datum Float)}

theorem isNaN_of_mem_readings {x : Float} (h : x ∈ d.readings Value.toNumber? dataset) : Scalar.isNaN x = false := by
  obtain ⟨datum, -, hx⟩ := List.mem_filterMap.mp h
  exact Value.isNaN_of_toNumber? hx

/-- The domain of a field of numbers goes from the least to the greatest of them. -/
theorem isTight_of_quantitative (htype : d.type = .quantitative) (dataset : List (Datum Float)) :
    IsTight (· ≤ ·) .number (d.readings Value.toNumber? dataset)
      ((CompleteChannelDef.field d).observedDomain dataset) := by
  rw [observedDomain_eq_of_quantitative htype]
  refine isTight_ends Double.place (fun x hx y hy => ?_) fun x hx y hy hle => ?_
  · exact decide_eq_decide.mpr (Double.lt_iff_place (isNaN_of_mem_readings hx) (isNaN_of_mem_readings hy))
  · exact (Double.le_iff_place (isNaN_of_mem_readings hx) (isNaN_of_mem_readings hy)).mpr hle

/-- The domain of a field of instants goes from the first to the last of them. -/
theorem isTight_of_temporal (htype : d.type = .temporal) (dataset : List (Datum Float)) :
    IsTight (fun t t' => t'.before t = false) .dateTime (d.readings Value.toInstant? dataset)
      ((CompleteChannelDef.field d).observedDomain dataset) := by
  rw [observedDomain_eq_of_temporal htype]
  refine isTight_ends (fun t : Calendar.Instant => toLex (t.second, t.nano))
    (fun t _ t' _ => Calendar.Instant.before_eq t t') fun t _ t' _ hle => ?_
  rw [Calendar.Instant.before_eq]
  exact decide_eq_false hle.not_gt

/-- A dataset that adds nothing leads to the same domain of numbers. -/
theorem observedDomain_beq_of_addsNothing (htype : d.type = .quantitative) {dataset' : List (Datum Float)}
    (h : d.AddsNothing Value.toNumber? dataset dataset') :
    ((CompleteChannelDef.field d).observedDomain dataset' == (CompleteChannelDef.field d).observedDomain dataset)
      = true := by
  refine beq_of_forall₂ ((isTight_of_quantitative htype dataset).congr ?_ ?_ (mem_readings_of_addsNothing h)
    (isTight_of_quantitative htype dataset'))
  · rintro x (rfl | rfl) <;> decide
  · -- neither is above the other, so both have one place
    intro x hx y hy hxy hyx
    have hx := isNaN_of_mem_readings hx
    have hy := isNaN_of_mem_readings hy
    exact (Double.beq_iff_place hx hy).mpr
      (le_antisymm ((Double.le_iff_place hx hy).mp hxy) ((Double.le_iff_place hy hx).mp hyx))

/-- A dataset that adds nothing leads to the same domain of instants. -/
theorem observedDomain_eq_of_addsNothing (htype : d.type = .temporal) {dataset' : List (Datum Float)}
    (h : d.AddsNothing Value.toInstant? dataset dataset') :
    (CompleteChannelDef.field d).observedDomain dataset' = (CompleteChannelDef.field d).observedDomain dataset := by
  refine List.forall₂_eq_eq_eq ▸ (isTight_of_temporal htype dataset).congr (fun _ _ => rfl) ?_
    (mem_readings_of_addsNothing h) (isTight_of_temporal htype dataset')
  intro t _ t' _ htt' ht't
  rw [Calendar.Instant.before_eq, decide_eq_false_iff_not, not_lt] at htt' ht't
  obtain ⟨hsecond, hnano⟩ := Prod.mk.inj (toLex.injective (le_antisymm htt' ht't))
  cases t
  cases hsecond
  cases hnano
  rfl

/-- **Observed domains are tight.** The domain of a field of numbers goes from the least to the greatest number that can
be read in its rows, that of a field of instants from the first to the last instant, and without any both are the unit
interval; rows in another order, rows that come again and rows without a reading change nothing. The domain of a field
of categories shows each key of its values by the first value that has it, and rows that come again change nothing. -/
theorem observedDomain_tight (d : CompleteFieldDef Float) (dataset : List (Datum Float)) :
    (d.type = .quantitative →
      IsTight (· ≤ ·) .number (d.readings Value.toNumber? dataset)
        ((CompleteChannelDef.field d).observedDomain dataset) ∧
      ∀ dataset', d.AddsNothing Value.toNumber? dataset dataset' →
        ((CompleteChannelDef.field d).observedDomain dataset'
          == (CompleteChannelDef.field d).observedDomain dataset) = true) ∧
    (d.type = .temporal →
      IsTight (fun t t' => t'.before t = false) .dateTime (d.readings Value.toInstant? dataset)
        ((CompleteChannelDef.field d).observedDomain dataset) ∧
      ∀ dataset', d.AddsNothing Value.toInstant? dataset dataset' →
        (CompleteChannelDef.field d).observedDomain dataset' = (CompleteChannelDef.field d).observedDomain dataset) ∧
    (d.type = .nominal ∨ d.type = .ordinal ∨ d.type = .geojson →
      Categories.ShowsFirst (d.shown dataset) ((CompleteChannelDef.field d).observedDomain dataset) ∧
      ∀ rows ⊆ dataset,
        (CompleteChannelDef.field d).observedDomain (dataset ++ rows)
          = (CompleteChannelDef.field d).observedDomain dataset) := by
  refine ⟨fun htype => ⟨isTight_of_quantitative htype dataset, fun _ h => observedDomain_beq_of_addsNothing htype h⟩,
    fun htype => ⟨isTight_of_temporal htype dataset, fun _ h => observedDomain_eq_of_addsNothing htype h⟩,
    fun htype => ⟨?_, fun rows hrows => ?_⟩⟩
  · rw [observedDomain_eq_of_categories htype]
    exact Categories.showsFirst_ofList (d.shown dataset)
  · rw [observedDomain_eq_of_categories htype, observedDomain_eq_of_categories htype, ofList_shown_append hrows]

/-- A field that is shown as it is. -/
def ofField (field : String) (type : DataType) : CompleteFieldDef Float where
  field
  type
  format := none
  title := field
  bin := none
  scale := none
  axis := none
  legend := true

/-- Two rows with a number, an instant and a category each, in various spellings. -/
def visits : List (Datum Float) :=
  [[("height", .string " 2.5 "), ("day", .string "2020-02-29"), ("fit", .boolean true)],
   [("height", .string "-1e400"), ("day", .string "2020-02-29T00:00:00Z"), ("fit", .string "true")]]

/-- A row whose number and instant cannot be read, and without a category. -/
def unreadableVisit : Datum Float := [("height", .string "tall"), ("day", .boolean true), ("fit", .null)]

/-- With a row that cannot be read in front, and with both rows turned round and one of them twice, each field still
shows the same domain. -/
theorem observedDomain_tight_visits :
    (ofField "height" .quantitative).AddsNothing Value.toNumber? visits (unreadableVisit :: visits.reverse) ∧
    (ofField "day" .temporal).AddsNothing Value.toInstant? visits (unreadableVisit :: visits.reverse) ∧
    visits.take 1 ⊆ visits ∧
    ((CompleteChannelDef.field (ofField "height" .quantitative)).observedDomain (unreadableVisit :: visits.reverse)
      == [.number (Float.ofBits 0xFFF0000000000000), .number 2.5]) = true ∧
    (CompleteChannelDef.field (ofField "day" .temporal)).observedDomain (unreadableVisit :: visits.reverse)
      = [.dateTime { second := 1582934400, nano := 0 }, .dateTime { second := 1582934400, nano := 0 }] ∧
    (CompleteChannelDef.field (ofField "fit" .nominal)).observedDomain (visits ++ visits.take 1) = [.boolean true] := by
  have hperm : (unreadableVisit :: visits.reverse).Perm (visits ++ [unreadableVisit]) :=
    (List.reverse_perm visits).cons unreadableVisit |>.trans (List.perm_append_singleton unreadableVisit visits).symm
  have hheight : (ofField "height" .quantitative).AddsNothing Value.toNumber? visits (unreadableVisit :: visits.reverse) :=
    ⟨[unreadableVisit], List.forall_mem_singleton.mpr (.inr (by decide +kernel)), hperm⟩
  have hday : (ofField "day" .temporal).AddsNothing Value.toInstant? visits (unreadableVisit :: visits.reverse) :=
    ⟨[unreadableVisit], List.forall_mem_singleton.mpr (.inr rfl), hperm⟩
  have hrows : visits.take 1 ⊆ visits := List.take_subset 1 visits
  refine ⟨hheight, hday, hrows, ?_, ?_, ?_⟩
  · have hvisits : (CompleteChannelDef.field (ofField "height" .quantitative)).observedDomain visits
        = [.number (Float.ofBits 0xFFF0000000000000), .number 2.5] := by decide +kernel
    have hsame := ((observedDomain_tight (ofField "height" .quantitative) visits).1 rfl).2 _ hheight
    rwa [hvisits] at hsame
  · rw [((observedDomain_tight (ofField "day" .temporal) visits).2.1 rfl).2 _ hday]
    decide +kernel
  · rw [((observedDomain_tight (ofField "fit" .nominal) visits).2.2 (.inl rfl)).2 _ hrows]
    decide +kernel

end CompleteFieldDef

end VisualEncoding
