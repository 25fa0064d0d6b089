import Mathlib.Data.List.Induction
import Mathlib.Data.String.Basic
import VisualEncoding.Chart.Encoder

/-!
# Groups and legends

A chart groups its data by the fields of some of its encoders (`ChannelEncoder.DividesBy`), and its legends explain
some of its channels (`EncodedChannel.IsExplainedBy`). Both are found by one pass over the channels that collects what
it meets:

> `groupBys_and_legends`: the groups are the fields of all such encoders, each once and in the order in which they are
> first seen; the legends are those of all fields that explain a channel, each with the names of all the channels that
> it explains, in the order of the channels.

Legends stand in ascending order of their fields, and each new channel goes to the end of the legend of its field
(`lookup_addToLegend`), so that after every channel a legend holds the names met so far (`legends_spec`).
-/

namespace VisualEncoding

variable {α : Type} [Scalar α]

/-! ## Fields that data are grouped by -/

/-- The encoder takes a field with a name, and divides the data into groups by it: as a property with few values or a
text, or as a color or a position of categories. -/
def ChannelEncoder.DividesBy (e : ChannelEncoder α) (field : String) : Prop :=
  field ≠ "" ∧ ∃ d, e.definition = .field d ∧ d.field = field ∧
    (e.role ∈ [.category, .text] ∨ e.role ∈ [.color, .x, .y, .xBand, .yBand] ∧ d.type ∈ [.nominal, .ordinal])

/-- A field is seen before another: some encoder divides the data by it, and none before that by the other. -/
def Encoder.SeenBefore (e : Encoder α) (field other : String) : Prop :=
  ∃ before c after, e.encoders = before ++ c :: after ∧ c.DividesBy field ∧ ∀ c' ∈ before, ¬ c'.DividesBy other

namespace ChannelEncoder

/-- The field that an encoder divides the data by, if there is one. -/
def groupField? (e : ChannelEncoder α) : Option String :=
  if e.isGroupBy then e.definition.fieldName?.filter fun field => field != "" else none

theorem isGroupBy_field {e : ChannelEncoder α} {d : CompleteFieldDef α} (h : e.definition = .field d) :
    e.isGroupBy = true ↔
      e.role ∈ [.category, .text] ∨ e.role ∈ [.color, .x, .y, .xBand, .yBand] ∧ d.type ∈ [.nominal, .ordinal] := by
  have htype : e.definition.type? = some d.type := by
    rw [h]
    rfl
  unfold isGroupBy
  rw [htype]
  dsimp only
  cases e.role <;> cases d.type <;> decide

theorem groupField?_eq_some_iff {e : ChannelEncoder α} {field : String} :
    e.groupField? = some field ↔ e.DividesBy field := by
  unfold groupField? DividesBy
  cases hdef : e.definition with
  | constant v =>
    constructor
    · intro h
      split at h <;> nomatch h
    · rintro ⟨-, d, hd, -⟩
      nomatch hd
  | field d =>
    have hname : (CompleteChannelDef.field d).fieldName? = some d.field := rfl
    constructor
    · intro h
      split at h
      next hgroup =>
        rw [hname, Option.filter_eq_some_iff, Option.some_inj] at h
        obtain ⟨rfl, hne⟩ := h
        exact ⟨by simpa using hne, d, rfl, rfl, (isGroupBy_field hdef).mp hgroup⟩
      next => nomatch h
    · rintro ⟨hne, d', hd', rfl, hrole⟩
      cases hd'
      rw [if_pos ((isGroupBy_field hdef).mpr hrole), hname, Option.filter_some, if_pos (by simpa using hne)]

end ChannelEncoder

/-- Of a list without its repetitions each item is first seen before those after it. The induction is on the length:
without the first item the rest of the list loses its repetitions. -/
theorem pairwise_eraseDups (l : List String) :
    l.eraseDups.Pairwise fun a b => a ≠ b ∧ ∃ before after, l = before ++ a :: after ∧ b ∉ before := by
  induction hn : l.length using Nat.strongRecOn generalizing l with
  | ind n ih =>
    cases l with
    | nil => exact List.Pairwise.nil
    | cons a l =>
      rw [List.eraseDups_cons, List.pairwise_cons]
      constructor
      · intro b hb
        have hne := (List.mem_filter.mp (List.mem_eraseDups.mp hb)).2
        exact ⟨fun h => by simp [h] at hne, [], l, rfl, List.not_mem_nil⟩
      · have hshort : (l.filter fun b => !b == a).length < n := by
          have := List.length_filter_le (fun b => !b == a) l
          rw [← hn, List.length_cons]
          omega
        refine (List.Pairwise.imp_of_mem ?_ (ih _ hshort _ rfl))
        rintro b c hb hc ⟨hbc, before, after, hsplit, hnot⟩
        -- the items in front of `b` in the whole list are `a` and those in front of it in the rest
        obtain ⟨before', rest, hl, hbefore, hrest⟩ := List.filter_eq_append_iff.mp hsplit
        obtain ⟨skipped, after', hrest', hskipped, -, -⟩ := List.filter_eq_cons_iff.mp hrest
        have hca : c ≠ a := by simpa using (List.mem_filter.mp (List.mem_eraseDups.mp hc)).2
        refine ⟨hbc, a :: before' ++ skipped, after', ?_, ?_⟩
        · rw [hl, hrest', List.cons_append, List.cons_append, List.append_assoc]
        · rw [List.mem_append, List.mem_cons, not_or, not_or]
          refine ⟨⟨hca, fun hmem => hnot ?_⟩, fun hmem => hskipped c hmem (by simpa using hca)⟩
          rw [← hbefore]
          exact List.mem_filter.mpr ⟨hmem, by simpa using hca⟩

namespace Encoder

theorem groupBys_eq_filterMap (e : Encoder α) :
    e.groupBys = (e.encoders.filterMap fun c => c.groupField?).eraseDups := by
  unfold groupBys
  dsimp only
  rw [List.filterMap_filter, List.filter_filterMap]
  refine congrArg List.eraseDups (List.filterMap_congr fun c _ => ?_)
  unfold ChannelEncoder.groupField?
  cases c.isGroupBy <;> rfl

theorem mem_groupBys_iff {e : Encoder α} {field : String} :
    field ∈ e.groupBys ↔ ∃ c ∈ e.encoders, c.DividesBy field := by
  rw [groupBys_eq_filterMap, List.mem_eraseDups, List.mem_filterMap]
  exact exists_congr fun c => and_congr_right fun _ => ChannelEncoder.groupField?_eq_some_iff

theorem pairwise_groupBys (e : Encoder α) :
    e.groupBys.Pairwise fun field other => field ≠ other ∧ e.SeenBefore field other := by
  rw [groupBys_eq_filterMap]
  refine (pairwise_eraseDups _).imp ?_
  rintro field other ⟨hne, before, after, hsplit, hnot⟩
  obtain ⟨front, rest, hencoders, hbefore, hrest⟩ := List.filterMap_eq_append_iff.mp hsplit
  obtain ⟨skipped, c, after', hrest', hskipped, hc, -⟩ := List.filterMap_eq_cons_iff.mp hrest
  refine ⟨hne, front ++ skipped, c, after', ?_, ChannelEncoder.groupField?_eq_some_iff.mp hc, fun c' hc' hdivides => ?_⟩
  · rw [hencoders, hrest', List.append_assoc]
  · rw [← ChannelEncoder.groupField?_eq_some_iff] at hdivides
    rcases List.mem_append.mp hc' with hfront | hskip
    · rw [← hbefore] at hnot
      exact hnot (List.mem_filterMap.mpr ⟨c', hfront, hdivides⟩)
    · rw [hskipped c' hskip] at hdivides
      nomatch hdivides

end Encoder

/-! ## Legends -/

/-- A legend of a field explains the channel: it has one encoder, which takes that field, in a role that a legend can
explain, and its legend is not switched off. -/
def EncodedChannel.IsExplainedBy (c : EncodedChannel α) (field : String) : Prop :=
  ∃ e d, c.encoders = .single e ∧ e.definition = .field d ∧ d.field = field ∧
    e.role ∈ [.color, .size, .numeric, .category] ∧ d.legend = true

namespace Encoder

theorem legendField?_eq_some_iff {c : EncodedChannel α} {field : String} :
    legendField? c = some field ↔ c.IsExplainedBy field := by
  unfold legendField? EncodedChannel.IsExplainedBy
  cases hencoders : c.encoders with
  | multiple es => exact ⟨fun h => (nomatch h), fun ⟨_, _, h, _⟩ => (nomatch h)⟩
  | single e =>
    show ((some e).filter fun e => e.hasLegend).bind (fun e => e.definition.fieldName?) = some field ↔ _
    cases hdef : e.definition with
    | constant v =>
      have hnone : e.hasLegend = false := by
        unfold ChannelEncoder.hasLegend
        rw [hdef]
      rw [Option.filter_some, hnone]
      constructor
      · intro h
        nomatch h
      · rintro ⟨e', d, ⟨⟩, hd, -⟩
        rw [hdef] at hd
        nomatch hd
    | field d =>
      have hlegend : e.hasLegend = true ↔ e.role ∈ [.color, .size, .numeric, .category] ∧ d.legend = true := by
        unfold ChannelEncoder.hasLegend
        rw [hdef, Bool.and_eq_true, and_comm]
        refine and_congr_left fun _ => ?_
        cases e.role <;> decide
      constructor
      · intro h
        rw [Option.filter_some] at h
        split at h
        next hhas =>
          rw [Option.bind_some, hdef] at h
          exact ⟨e, d, rfl, hdef, Option.some_inj.mp h, hlegend.mp hhas⟩
        next => nomatch h
      · rintro ⟨e', d', ⟨⟩, hd', rfl, hrole⟩
        rw [hdef] at hd'
        cases hd'
        rw [Option.filter_some, if_pos (hlegend.mpr hrole), Option.bind_some, hdef]
        rfl

instance (c : EncodedChannel α) (field : String) : Decidable (c.IsExplainedBy field) :=
  decidable_of_iff (legendField? c = some field) legendField?_eq_some_iff

/-- The names of the channels that the legend of a field explains, in the order of the channels. -/
def explainedBy (cs : List (EncodedChannel α)) (field : String) : List String :=
  (cs.filter fun c => c.IsExplainedBy field).map (·.name)

variable {legends : List (String × List String)} {field name other : String}

/-- In ascending order of the fields. -/
def Ascending (legends : List (String × List String)) : Prop := (legends.map Prod.fst).Pairwise (· < ·)

theorem Ascending.lookup_eq_none (h : ∀ f ∈ legends.map Prod.fst, field < f) : legends.lookup field = none := by
  induction legends with
  | nil => rfl
  | cons l legends ih =>
    obtain ⟨f, names⟩ := l
    obtain ⟨hf, hrest⟩ := List.forall_mem_cons.mp h
    rw [List.lookup_cons, beq_false_of_ne hf.ne]
    exact ih hrest

/-- Adding a channel to a legend adds at most one field. -/
theorem mem_map_addToLegend (field name : String) (legends : List (String × List String)) {f : String}
    (h : f ∈ (addToLegend field name legends).map Prod.fst) : f = field ∨ f ∈ legends.map Prod.fst := by
  induction legends with
  | nil => exact .inl (List.mem_singleton.mp h)
  | cons l legends ih =>
    obtain ⟨key, names⟩ := l
    unfold addToLegend at h
    split at h
    · exact List.mem_cons.mp h
    · split at h
      · exact .inr h
      · rcases List.mem_cons.mp h with rfl | h
        · exact .inr List.mem_cons_self
        · exact (ih h).imp_right (List.mem_cons_of_mem _)

theorem Ascending.addToLegend (h : Ascending legends) (field name : String) :
    Ascending (addToLegend field name legends) := by
  induction legends with
  | nil => exact List.pairwise_singleton _ _
  | cons l legends ih =>
    obtain ⟨key, names⟩ := l
    obtain ⟨hkey, hrest⟩ := List.pairwise_cons.mp h
    unfold Encoder.addToLegend
    split
    next hlt =>
      exact List.pairwise_cons.mpr ⟨List.forall_mem_cons.mpr ⟨hlt, fun f hf => hlt.trans (hkey f hf)⟩, h⟩
    next hge =>
      split
      · exact h
      next hne =>
        refine List.pairwise_cons.mpr ⟨fun f hf => ?_, ih hrest⟩
        rcases mem_map_addToLegend field name legends hf with rfl | hf
        · exact lt_of_le_of_ne (not_lt.mp hge) fun heq => hne (beq_iff_eq.mpr heq.symm)
        · exact hkey f hf

/-- The legend of the field has the channel at its end, the others are as they were. -/
theorem lookup_addToLegend (h : Ascending legends) (field name other : String) :
    (addToLegend field name legends).lookup other
      = if other = field then some ((legends.lookup field).getD [] ++ [name]) else legends.lookup other := by
  induction legends with
  | nil =>
    by_cases hother : other = field
    · simp [addToLegend, hother]
    · simp [addToLegend, hother, List.lookup_cons, beq_false_of_ne hother]
  | cons l legends ih =>
    obtain ⟨key, names⟩ := l
    obtain ⟨hkey, hrest⟩ := List.pairwise_cons.mp h
    unfold addToLegend
    split
    next hlt =>
      have hnone : ((key, names) :: legends).lookup field = none :=
        Ascending.lookup_eq_none (List.forall_mem_cons.mpr ⟨hlt, fun f hf => hlt.trans (hkey f hf)⟩)
      rw [hnone, List.lookup_cons]
      by_cases hother : other = field
      · simp [hother]
      · simp [hother, beq_false_of_ne hother]
    next =>
      split
      next heq =>
        obtain rfl := beq_iff_eq.mp heq
        by_cases hother : other = field
        · simp [hother]
        · simp [hother, List.lookup_cons, beq_false_of_ne hother]
      next hne =>
        have hne' : field ≠ key := by simpa using hne
        rw [List.lookup_cons, List.lookup_cons, List.lookup_cons, beq_false_of_ne hne', ih hrest]
        by_cases hother : other = key
        · simp [hother, Ne.symm hne']
        · simp [beq_false_of_ne hother]

/-- The legends after some channels hold the names of those channels. The induction is on the channels from the end. -/
theorem legends_spec (cs : List (EncodedChannel α)) :
    Ascending (Encoder.legends { channels := cs }) ∧ ∀ field,
      (Encoder.legends { channels := cs }).lookup field
        = if explainedBy cs field = [] then none else some (explainedBy cs field) := by
  unfold Encoder.legends
  dsimp only
  induction cs using List.reverseRecOn with
  | nil => exact ⟨List.Pairwise.nil, fun _ => rfl⟩
  | append_singleton cs c ih =>
    obtain ⟨hascending, hlookup⟩ := ih
    rw [List.foldl_append, List.foldl_cons, List.foldl_nil]
    have hexplained : ∀ field, explainedBy (cs ++ [c]) field
        = explainedBy cs field ++ if c.IsExplainedBy field then [c.name] else [] := by
      intro field
      unfold explainedBy
      rw [List.filter_append, List.map_append, List.filter_singleton]
      by_cases h : c.IsExplainedBy field
      · rw [if_pos h, decide_eq_true h]
        rfl
      · rw [if_neg h, decide_eq_false h]
        rfl
    cases hfield : legendField? c with
    | none =>
      refine ⟨hascending, fun field => ?_⟩
      have hnot : ¬ c.IsExplainedBy field := by
        rw [← legendField?_eq_some_iff, hfield]
        exact fun h => nomatch h
      rw [hexplained, if_neg hnot, List.append_nil]
      exact hlookup field
    | some field =>
      refine ⟨hascending.addToLegend field c.name, fun other => ?_⟩
      have hexplains : c.IsExplainedBy other ↔ other = field := by
        rw [← legendField?_eq_some_iff, hfield, Option.some_inj, eq_comm]
      dsimp only
      rw [lookup_addToLegend hascending, hlookup, hlookup, hexplained]
      by_cases hother : other = field
      · subst hother
        rw [if_pos rfl, if_pos (hexplains.mpr rfl)]
        by_cases hnone : explainedBy cs other = []
        · simp [hnone]
        · simp [hnone]
      · rw [if_neg hother, if_neg (fun h => hother (hexplains.mp h)), List.append_nil]

theorem Ascending.mem_iff (h : Ascending legends) {names : List String} :
    (field, names) ∈ legends ↔ legends.lookup field = some names := by
  induction legends with
  | nil => exact ⟨fun h => (nomatch h), fun h => (nomatch h)⟩
  | cons l legends ih =>
    obtain ⟨key, found⟩ := l
    obtain ⟨hkey, hrest⟩ := List.pairwise_cons.mp h
    rw [List.mem_cons, List.lookup_cons]
    by_cases hfield : field = key
    · subst hfield
      -- no later legend is of the same field
      have hnot : (field, names) ∉ legends := fun hmem => (hkey field (List.mem_map.mpr ⟨_, hmem, rfl⟩)).false
      rw [beq_self_eq_true, Option.some_inj, Prod.mk.injEq]
      exact ⟨fun hmem => (hmem.resolve_right hnot).2.symm, fun heq => .inl ⟨rfl, heq.symm⟩⟩
    · rw [beq_false_of_ne hfield, ← ih hrest]
      exact ⟨fun hmem => hmem.resolve_left fun heq => hfield (Prod.mk.inj heq).1, .inr⟩

theorem mem_legends_iff (e : Encoder α) {names : List String} :
    (field, names) ∈ e.legends ↔ names = explainedBy e.channels field ∧ names ≠ [] := by
  obtain ⟨hascending, hlookup⟩ := legends_spec e.channels
  rw [Ascending.mem_iff hascending, hlookup]
  by_cases hnone : explainedBy e.channels field = []
  · rw [if_pos hnone, hnone]
    exact ⟨fun h => (nomatch h), fun h => absurd h.1 h.2⟩
  · rw [if_neg hnone, Option.some_inj]
    exact ⟨fun h => ⟨h.symm, h ▸ hnone⟩, fun h => h.1.symm⟩

theorem hasLegend_iff (e : Encoder α) :
    e.hasLegend = true ↔ ∃ c ∈ e.channels, ∃ field, c.IsExplainedBy field := by
  unfold hasLegend
  rw [Bool.not_eq_true', List.isEmpty_eq_false_iff_exists_mem]
  constructor
  · rintro ⟨⟨field, names⟩, hmem⟩
    obtain ⟨rfl, hne⟩ := (mem_legends_iff e).mp hmem
    obtain ⟨name, hname⟩ := List.exists_mem_of_ne_nil _ hne
    obtain ⟨c, hc, -⟩ := List.mem_map.mp hname
    obtain ⟨hc, hexplained⟩ := List.mem_filter.mp hc
    exact ⟨c, hc, field, of_decide_eq_true hexplained⟩
  · rintro ⟨c, hc, field, hexplained⟩
    refine ⟨(field, explainedBy e.channels field), (mem_legends_iff e).mpr ⟨rfl, List.ne_nil_of_mem (a := c.name) ?_⟩⟩
    exact List.mem_map.mpr ⟨c, List.mem_filter.mpr ⟨hc, decide_eq_true hexplained⟩, rfl⟩

/-- **Groups and legends are exact.** A chart, whose channels stand in the order of their declarations, is grouped by
the fields with a name that some encoder divides the data by: each once, and a field that is seen before another comes
before it. There is a legend for each field that explains a channel, and for no other; it lists the names of all the
channels that it explains, in their order, and is never empty. The chart has a legend if and only if there is such a
channel. -/
theorem groupBys_and_legends (e : Encoder α) :
    (e.groupBys.Nodup ∧ (∀ field, field ∈ e.groupBys ↔ ∃ c ∈ e.encoders, c.DividesBy field) ∧
      e.groupBys.Pairwise e.SeenBefore) ∧
    ((e.legends.map Prod.fst).Nodup ∧ ∀ field names, (field, names) ∈ e.legends ↔
      names = (e.channels.filter fun c => c.IsExplainedBy field).map (·.name) ∧ names ≠ []) ∧
    (e.hasLegend = true ↔ ∃ c ∈ e.channels, ∃ field, c.IsExplainedBy field) := by
  refine ⟨⟨(pairwise_groupBys e).imp And.left, fun _ => mem_groupBys_iff, (pairwise_groupBys e).imp And.right⟩,
    ⟨(legends_spec e.channels).1.imp ne_of_lt, fun _ _ => mem_legends_iff e⟩, hasLegend_iff e⟩

end Encoder

end VisualEncoding
