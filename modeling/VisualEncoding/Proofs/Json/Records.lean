import VisualEncoding.Proofs.Json.Readers

/-!
# Records are restored field by field

A record is read by taking its members in the order they stand in, and written by listing the fields that are set.
`Json.Record` says of a record which fields it has and that taking a member sets the field of its name, and
nothing else. Then the order of the members does not matter, and a record is restored if its fields are:

> `Record.restores_of_readRecord`: every field of a record that was read can be read back from what it is written as.
> `Record.foldlM_take`: members that can be read back make up the record again, whatever their order.
-/

namespace VisualEncoding.Json

variable {β γ : Type}

/-! ## Fields -/

theorem mem_optionalMember_iff {name : String} {write : γ → Json} {value : Option γ} {m : String × Json} :
    m ∈ optionalMember name write value ↔ ∃ x, value = some x ∧ m = (name, write x) := by
  cases value with
  | none => exact ⟨nofun, fun ⟨_, h, _⟩ => nomatch h⟩
  | some x =>
    show m ∈ [(name, write x)] ↔ _
    rw [List.mem_singleton]
    exact ⟨fun h => ⟨x, rfl, h⟩, fun ⟨y, hy, h⟩ => Option.some.inj hy ▸ h⟩

/-- A reader that does not take `null` for a value. -/
def RefusesNull (read : Reader γ) : Prop := ∀ x, read .null ≠ .ok x

theorem refusesNull_bool : RefusesNull readBool := nofun

theorem refusesNull_string : RefusesNull readString := nofun

theorem refusesNull_float : RefusesNull readFloat := nofun

theorem refusesNull_word : RefusesNull readWord := nofun

theorem readOptional_eq_some_iff {read : Reader γ} {j : Json} {x : γ} (hnull : RefusesNull read) :
    readOptional read j = .ok (some x) ↔ read j = .ok x := by
  unfold readOptional
  split
  · exact ⟨nofun, fun h => absurd h (hnull x)⟩
  · rw [Outcome.map_eq_ok_iff]
    exact ⟨fun ⟨y, hy, hyx⟩ => Option.some.inj hyx ▸ hy, fun h => ⟨x, h, rfl⟩⟩

/-- A field of a record: its name, where it stands in the record, and how it is read and written. A field that is
not set is not written. -/
structure RecordField (β : Type) where
  name : String
  {γ : Type}
  get : β → Option γ
  set : β → Option γ → β
  read : Reader (Option γ)
  write : γ → Json

namespace RecordField

/-- A field that may be left out by writing `null`. -/
def optional (name : String) (read : Reader γ) (write : γ → Json) (get : β → Option γ)
    (set : β → Option γ → β) : RecordField β :=
  { name, get, set, read := readOptional read, write }

/-- A field that is set whenever it is written. -/
def present (name : String) (read : Reader γ) (write : γ → Json) (get : β → Option γ)
    (set : β → Option γ → β) : RecordField β :=
  { name, get, set, read := fun j => (read j).map some, write }

/-- The members that a field is written as. -/
def members (f : RecordField β) (b : β) : List (String × Json) := optionalMember f.name f.write (f.get b)

/-- The value of a field can be read back from what it is written as. -/
def Restores (f : RecordField β) (b : β) : Prop :=
  ∀ x, f.get b = some x → f.read (f.write x).canonical = .ok (some x)

/-- Whatever a field is set to can be read back. -/
def RoundTrips (f : RecordField β) : Prop :=
  ∀ j x, j.WellFormed → f.read j = .ok (some x) → f.read (f.write x).canonical = .ok (some x)

section

variable {name : String} {read : Reader γ} {write : γ → Json} {get : β → Option γ} {set : β → Option γ → β}

/-- A field that may be left out is restored if its value is. -/
theorem optional_restores_iff {b : β} (hnull : RefusesNull read) :
    (optional name read write get set).Restores b ↔ ∀ x, get b = some x → Json.Restores read write x :=
  forall₂_congr fun _ _ => readOptional_eq_some_iff hnull

/-- A field that falls back to a default is restored if it is restored where it is set, and the default is. -/
theorem optional_restores_getD {b c : β} {x : γ} (hnull : RefusesNull read)
    (h : (optional name read write get set).Restores b) (hget : get c = some ((get b).getD x))
    (hx : Json.Restores read write x) : (optional name read write get set).Restores c := by
  refine (optional_restores_iff hnull).mpr fun y hy => ?_
  cases hget.symm.trans hy
  exact Json.restores_getD ((optional_restores_iff hnull).mp h) hx

theorem optional_roundTrips (hnull : RefusesNull read) (h : Json.RoundTrips read write) :
    (optional name read write get set).RoundTrips :=
  fun j x hj hread =>
    (readOptional_eq_some_iff hnull).mpr (h j x hj ((readOptional_eq_some_iff hnull).mp hread))

theorem present_roundTrips (h : Json.RoundTrips read write) : (present name read write get set).RoundTrips := by
  intro j x hj hread
  obtain ⟨y, hy, hyx⟩ := Outcome.map_eq_ok_iff.mp hread
  cases hyx
  exact congrArg (Except.map some) (h j x hj hy)

theorem present_restores_iff {b : β} :
    (present name read write get set).Restores b ↔ ∀ x, get b = some x → Json.Restores read write x := by
  refine forall₂_congr fun x _ => ?_
  show (read (write x).canonical).map some = .ok (some x) ↔ read (write x).canonical = .ok x
  rw [Outcome.map_eq_ok_iff]
  exact ⟨fun ⟨y, hy, hyx⟩ => Option.some.inj hyx ▸ hy, fun h => ⟨x, h, rfl⟩⟩

/-- A field that is set whenever it is written is set to what is read. -/
theorem bind_present (b : β) (j : Json) :
    (do return (present name read write get set).set b (← (present name read write get set).read j))
      = (do return set b (some (← read j)) : Except Mismatch β) := by
  show ((read j).map some >>= fun x => pure (set b x)) = (read j >>= fun x => pure (set b (some x)))
  cases read j <;> rfl

end

end RecordField

/-! ## Records -/

/-- Neither of two fields is touched when the other is set. -/
@[mk_iff]
structure RecordField.Independent (f g : RecordField β) : Prop where
  name_ne : f.name ≠ g.name
  get_set : ∀ b x, g.get (f.set b x) = g.get b
  get_set_symm : ∀ b x, f.get (g.set b x) = f.get b

instance RecordField.instSymm : Std.Symm (RecordField.Independent (β := β)) :=
  ⟨fun _ _ h => ⟨h.name_ne.symm, h.get_set_symm, h.get_set⟩⟩

/-- A record with its fields. -/
structure Record (β : Type) where
  /-- The record with no field set. -/
  start : β
  take : β → String → Json → Except Mismatch β
  fields : List (RecordField β)
  /-- A member of the name of a field sets that field. -/
  take_field : ∀ f ∈ fields, ∀ b j, take b f.name j = (do return f.set b (← f.read j))
  /-- No other member sets anything. -/
  take_other : ∀ name, name ∉ fields.map RecordField.name → ∀ b j b', take b name j = .ok b' → b' = b
  get_start : ∀ f ∈ fields, f.get start = none
  get_set : ∀ f ∈ fields, ∀ b x, f.get (f.set b x) = x
  independent : fields.Pairwise RecordField.Independent

namespace Record

variable {r : Record β} {f g : RecordField β} {b b' start : β} {j : Json} {members : List (String × Json)}

/-- Two fields are one field or independent of each other. -/
theorem eq_or_independent (hf : f ∈ r.fields) (hg : g ∈ r.fields) : f = g ∨ f.Independent g := by
  by_cases heq : f = g
  · exact Or.inl heq
  · exact Or.inr (r.independent.forall hf hg heq)

/-- What taking a member does. -/
theorem take_eq_ok {name : String} (h : r.take b name j = .ok b') :
    (∃ f ∈ r.fields, f.name = name ∧ ∃ x, f.read j = .ok x ∧ b' = f.set b x) ∨
      (name ∉ r.fields.map RecordField.name ∧ b' = b) := by
  by_cases hname : name ∈ r.fields.map RecordField.name
  · obtain ⟨f, hf, rfl⟩ := List.mem_map.mp hname
    rw [r.take_field f hf] at h
    obtain ⟨x, hx, hset⟩ := Outcome.bind_eq_ok_iff.mp h
    cases hset
    exact Or.inl ⟨f, hf, rfl, x, hx, rfl⟩
  · exact Or.inr ⟨hname, r.take_other name hname b j b' h⟩

/-! ### What a record is read from -/

/-- A field that is set after a member has been taken was set before, or is read from the member. -/
theorem get_of_take {name : String} (hg : g ∈ r.fields) (h : r.take b name j = .ok b') {x : g.γ}
    (hx : g.get b' = some x) : g.get b = some x ∨ g.read j = .ok (some x) := by
  rcases take_eq_ok h with ⟨f, hf, -, y, hy, rfl⟩ | ⟨-, rfl⟩
  · rcases eq_or_independent hf hg with rfl | hfg
    · rw [r.get_set f hf] at hx
      exact Or.inr (hx ▸ hy)
    · rw [hfg.get_set] at hx
      exact Or.inl hx
  · exact Or.inl hx

/-- A field that is set after members have been taken was set before, or is read from one of them. -/
theorem get_of_foldlM (hg : g ∈ r.fields)
    (h : members.foldlM (fun b (name, j) => r.take b name j) start = .ok b) {x : g.γ} (hx : g.get b = some x) :
    g.get start = some x ∨ ∃ m ∈ members, g.read m.2 = .ok (some x) := by
  induction members generalizing start with
  | nil =>
    cases h
    exact Or.inl hx
  | cons m members ih =>
    obtain ⟨next, hnext, hrest⟩ := Outcome.bind_eq_ok_iff.mp h
    rcases ih hrest with hset | ⟨n, hn, hread⟩
    · rcases get_of_take hg hnext hset with hset | hread
      · exact Or.inl hset
      · exact Or.inr ⟨m, List.mem_cons_self, hread⟩
    · exact Or.inr ⟨n, List.mem_cons_of_mem _ hn, hread⟩

/-- Every field of a record can be read back from what it is written as. -/
def Restores (r : Record β) (b : β) : Prop := ∀ f ∈ r.fields, f.Restores b

/-- Nothing that is set is nothing to restore. -/
theorem restores_start (r : Record β) : r.Restores r.start := by
  intro f hf x hx
  rw [r.get_start f hf] at hx
  nomatch hx

/-- What is set is read from well-formed trees. -/
theorem exists_read (hmembers : ∀ m ∈ members, m.2.WellFormed)
    (h : members.foldlM (fun b (name, j) => r.take b name j) r.start = .ok b) :
    ∀ f ∈ r.fields, ∀ x, f.get b = some x → ∃ j, j.WellFormed ∧ f.read j = .ok (some x) := by
  intro f hf x hx
  rcases get_of_foldlM hf h hx with hset | ⟨m, hm, hread⟩
  · rw [r.get_start f hf] at hset
    nomatch hset
  · exact ⟨m.2, hmembers m hm, hread⟩

theorem restores_of_foldlM (hfields : ∀ f ∈ r.fields, f.RoundTrips) (hmembers : ∀ m ∈ members, m.2.WellFormed)
    (h : members.foldlM (fun b (name, j) => r.take b name j) r.start = .ok b) : r.Restores b := by
  intro f hf x hx
  obtain ⟨j, hj, hread⟩ := exists_read hmembers h f hf x hx
  exact hfields f hf j x hj hread

/-- A record that was read, from an object or from an array, is restored field by field. -/
theorem restores_of_readRecord {expected : String} {names : List String} (hfields : ∀ f ∈ r.fields, f.RoundTrips)
    (hj : j.WellFormed) (h : readRecord expected names r.start r.take j = .ok b) : r.Restores b := by
  cases hj with
  | object hmembers _ => exact restores_of_foldlM hfields hmembers h
  | array hitems =>
    obtain ⟨c, hc, hend⟩ := Outcome.bind_eq_ok_iff.mp h
    have hcb : c = b := by
      split at hend
      · nomatch hend
      · exact Except.ok.inj hend
    subst hcb
    exact restores_of_foldlM hfields (fun m hm => hitems m.2 (List.of_mem_zip hm).2) hc
  | _ => nomatch h

/-! ### What a record is written as -/

/-- The fields that are set, in the order of the record. -/
def toMembers (r : Record β) (b : β) : List (String × Json) := r.fields.flatMap fun f => f.members b

/-- A record as JSON. -/
def toJson (r : Record β) (b : β) : Json := .object (r.toMembers b)

theorem mem_members {m : String × Json} (h : m ∈ f.members b) :
    ∃ x, f.get b = some x ∧ m = (f.name, f.write x) :=
  mem_optionalMember_iff.mp h

theorem mem_names_of_mem_toMembers {m : String × Json} (h : m ∈ r.toMembers b) :
    m.1 ∈ r.fields.map RecordField.name := by
  obtain ⟨f, hf, hm⟩ := List.mem_flatMap.mp h
  obtain ⟨x, -, rfl⟩ := mem_members hm
  exact List.mem_map_of_mem hf

/-- A member that stands for a field of `b`, or sets nothing. -/
def StandsFor (r : Record β) (b : β) (m : String × Json) : Prop :=
  (∃ f ∈ r.fields, ∃ x, m.1 = f.name ∧ f.get b = some x ∧ f.read m.2 = .ok (some x)) ∨
    (m.1 ∉ r.fields.map RecordField.name ∧ ∀ c, r.take c m.1 m.2 = .ok c)

/-- Taking a member that stands for a field of `b` sets that field as in `b`, and nothing else. -/
theorem StandsFor.exists_take {m : String × Json} (h : r.StandsFor b m) (start : β) :
    ∃ next, r.take start m.1 m.2 = .ok next ∧
      ∀ f ∈ r.fields, f.get next = f.get b ∨ (f.name ≠ m.1 ∧ f.get next = f.get start) := by
  rcases h with ⟨g, hg, x, hname, hx, hread⟩ | ⟨hother, htake⟩
  · refine ⟨g.set start (some x), ?_, fun f hf => ?_⟩
    · rw [hname, r.take_field g hg, hread]
      rfl
    · rcases eq_or_independent hg hf with rfl | hgf
      · exact Or.inl ((r.get_set g hg start (some x)).trans hx.symm)
      · exact Or.inr ⟨hname ▸ hgf.name_ne.symm, hgf.get_set start (some x)⟩
  · exact ⟨start, htake start, fun f hf => Or.inr ⟨fun heq => hother (heq ▸ List.mem_map_of_mem hf), rfl⟩⟩

/-- Members that stand for fields of `b` lead to the fields of `b`; what none of them names stays as it was. -/
theorem foldlM_take (h : ∀ m ∈ members, r.StandsFor b m) (start : β) :
    ∃ c, members.foldlM (fun b (name, j) => r.take b name j) start = .ok c ∧
      ∀ f ∈ r.fields, f.get c = f.get b ∨ (f.name ∉ members.map Prod.fst ∧ f.get c = f.get start) := by
  induction members generalizing start with
  | nil => exact ⟨start, rfl, fun f _ => Or.inr ⟨List.not_mem_nil, rfl⟩⟩
  | cons m members ih =>
    obtain ⟨hm, hmembers⟩ := List.forall_mem_cons.mp h
    obtain ⟨next, hnext, hstep⟩ := hm.exists_take start
    obtain ⟨c, hc, hrun⟩ := ih hmembers next
    refine ⟨c, Outcome.bind_eq_ok_iff.mpr ⟨next, hnext, hc⟩, fun f hf => ?_⟩
    rcases hrun f hf with heq | ⟨hnot, hrest⟩
    · exact Or.inl heq
    · rcases hstep f hf with heq | ⟨hne, hfirst⟩
      · exact Or.inl (hrest.trans heq)
      · exact Or.inr ⟨List.not_mem_cons_of_ne_of_not_mem hne hnot, hrest.trans hfirst⟩

/-- **Records are restored field by field.** Written among members that set nothing, put into any order and read
again, a record has the fields that it had. -/
theorem exists_restored (h : r.Restores b) (hwritten : ∀ f ∈ r.fields, ∀ m ∈ f.members b, m ∈ members)
    (hmembers : ∀ m ∈ members, (∃ f ∈ r.fields, m ∈ f.members b) ∨
      (m.1 ∉ r.fields.map RecordField.name ∧ ∀ c, r.take c m.1 m.2.canonical = .ok c)) :
    ∃ c, (sortMembers (members.map fun m => (m.1, m.2.canonical))).foldlM
        (fun b (name, j) => r.take b name j) r.start = .ok c ∧ ∀ f ∈ r.fields, f.get c = f.get b := by
  have htaken : ∀ n ∈ sortMembers (members.map fun m => (m.1, m.2.canonical)), r.StandsFor b n := by
    intro n hn
    obtain ⟨m, hm, rfl⟩ := List.mem_map.mp (mem_of_mem_sortMembers hn)
    rcases hmembers m hm with ⟨f, hf, hfm⟩ | hother
    · obtain ⟨x, hx, rfl⟩ := mem_members hfm
      exact Or.inl ⟨f, hf, x, rfl, hx, h f hf x hx⟩
    · exact Or.inr hother
  obtain ⟨c, hc, hfields⟩ := foldlM_take htaken r.start
  refine ⟨c, hc, fun f hf => ?_⟩
  rcases hfields f hf with heq | ⟨hnot, heq⟩
  · exact heq
  · -- a field that is not written is not set
    rw [heq, r.get_start f hf]
    cases hx : f.get b with
    | none => rfl
    | some x =>
      have hmem : (f.name, f.write x) ∈ members :=
        hwritten f hf _ (mem_optionalMember_iff.mpr ⟨x, hx, rfl⟩)
      refine absurd ?_ hnot
      rw [mem_keys_sortMembers, List.map_map]
      exact List.mem_map.mpr ⟨_, hmem, rfl⟩

/-- A record that is written alone. -/
theorem restores_toJson (h : r.Restores b) (hext : ∀ c, (∀ f ∈ r.fields, f.get c = f.get b) → c = b)
    (expected : String) (names : List String) :
    Json.Restores (readRecord expected names r.start r.take) r.toJson b := by
  have hwritten : ∀ f ∈ r.fields, ∀ m ∈ f.members b, m ∈ r.toMembers b :=
    fun f hf m hm => List.mem_flatMap.mpr ⟨f, hf, hm⟩
  obtain ⟨c, hc, hfields⟩ := exists_restored h hwritten fun m hm => Or.inl (List.mem_flatMap.mp hm)
  show readRecord expected names r.start r.take (object (r.toMembers b)).canonical = .ok b
  rw [canonical_object]
  exact hext c hfields ▸ hc

/-- A record that is written alone, and that its fields determine. -/
theorem roundTrips (hfields : ∀ f ∈ r.fields, f.RoundTrips)
    (hext : ∀ b c, (∀ f ∈ r.fields, f.get c = f.get b) → c = b) (expected : String) (names : List String) :
    Json.RoundTrips (readRecord expected names r.start r.take) r.toJson :=
  fun _ b hj h => restores_toJson (restores_of_readRecord hfields hj h) (hext b) expected names

end Record

end VisualEncoding.Json
