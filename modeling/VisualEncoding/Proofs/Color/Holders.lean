import VisualEncoding.Proofs.Color.SharedTables

/-!
# Programs that hold tables

A program requests color tables and keeps what it gets, also beyond a reset; it asks the tables that it
holds for colors and pins values in them, in any order. `TableRun.call` is one such call with its answer,
`TableRun.after` a whole run.

> `Sound.after`: a run keeps the tables in use consistent, and what is held exists.
> `AgreeExcept.after`: two runs whose tables are the same but for one stay so.
> `Sound.table_after`: a table is what the uses of it have made of a fresh one, and nothing else.
-/

namespace VisualEncoding

/-- What a program does with a table that it holds. -/
inductive TableUse (α : Type) where
  /-- Asks for the color of a value. -/
  | lookUp (v : Value α)
  /-- Pins a value to a color. -/
  | pin (v : Value α) (color : String)
  /-- Asks for the number of values with a color. -/
  | count
  /-- Asks for the palette. -/
  | palette

/-- What a program does with the color tables. -/
inductive TableCall (α : Type) where
  /-- Requests the table for a scheme and group, and keeps it. -/
  | request (scheme group : Option String)
  /-- Uses the table that a request has got, by the number of the request from zero. -/
  | use (request : Nat) (u : TableUse α)
  | reset

/-- The answer to a call. -/
inductive TableAnswer where
  | color (color : String)
  | count (n : Nat)
  | palette (colors : List String)
  | done

/-- The tables, and the ones that the requests of a program have got, in order. -/
structure TableRun where
  tables : SharedTables
  held : List Nat := []

variable {α : Type} [Scalar α]

/-- The answer of a table that is used, and the table after that. -/
def TableUse.act (u : TableUse α) (t : ColorTable) : TableAnswer × ColorTable :=
  match u with
  | .lookUp v => (.color (t.colorFor v).1, (t.colorFor v).2)
  | .pin v color => (.done, t.setColor v color)
  | .count => (.count t.assignedCount, t)
  | .palette => (.palette t.palette, t)

/-- No use changes the palette. -/
theorem TableUse.palette_act (u : TableUse α) (t : ColorTable) : (u.act t).2.palette = t.palette := by
  cases u with
  | lookUp v => exact t.palette_colorOfKey v.key
  | pin v color => rfl
  | count => rfl
  | palette => rfl

namespace TableRun

/-- The table that a request gets. -/
def requested (r : TableRun) (scheme group : Option String) : Nat := (r.tables.tableFor scheme group).1

/-- Answers a call. A request that was not made holds nothing to be used. -/
def call (r : TableRun) : TableCall α → TableAnswer × TableRun
  | .request scheme group =>
    (.done,
      { tables := (r.tables.tableFor scheme group).2
        held := r.held ++ [r.requested scheme group] })
  | .use i u =>
    match r.held[i]? with
    | some id => ((r.tables.update id u.act).1, { r with tables := (r.tables.update id u.act).2 })
    | none => (.done, r)
  | .reset => (.done, { r with tables := r.tables.reset })

/-- The run after a call. -/
def next (r : TableRun) (c : TableCall α) : TableRun := (r.call c).2

/-- The run after calls one after the other. -/
def after (r : TableRun) (calls : List (TableCall α)) : TableRun := calls.foldl next r

/-- A program that holds nothing, and the schemes that are known. -/
def start (schemes : SchemeRegistry) : TableRun := { tables := { schemes } }

variable {r r' : TableRun} {c : TableCall α} {id i : Nat} {u : TableUse α}

theorem call_use_of_held (h : r.held[i]? = some id) :
    r.call (.use i u) = ((u.act (r.tables.table id)).1,
      { r with tables := (r.tables.update id u.act).2 }) := by
  show (match r.held[i]? with | some id => _ | none => _) = _
  rw [h]
  rfl

theorem call_use_of_not_held (h : r.held[i]? = none) : r.call (.use i u) = (.done, r) := by
  show (match r.held[i]? with | some id => _ | none => _) = _
  rw [h]

theorem next_use_of_held (h : r.held[i]? = some id) :
    r.next (.use i u) = { r with tables := (r.tables.update id u.act).2 } := by
  unfold next
  rw [call_use_of_held h]

theorem next_use_of_not_held (h : r.held[i]? = none) : r.next (.use i u) = r := by
  unfold next
  rw [call_use_of_not_held h]

/-- A use is a step on a table that is held, or nothing. -/
theorem next_use (r : TableRun) (i : Nat) (u : TableUse α) :
    (∃ id, r.held[i]? = some id ∧ r.next (.use i u) = { r with tables := (r.tables.update id u.act).2 }) ∨
      (r.held[i]? = none ∧ r.next (.use i u) = r) := by
  cases hheld : r.held[i]? with
  | some id => exact Or.inl ⟨id, rfl, next_use_of_held hheld⟩
  | none => exact Or.inr ⟨rfl, next_use_of_not_held hheld⟩

theorem next_request (r : TableRun) (scheme group : Option String) :
    r.next (.request scheme group : TableCall α) =
      { tables := (r.tables.tableFor scheme group).2
        held := r.held ++ [(r.tables.tableFor scheme group).1] } :=
  rfl

theorem after_cons (r : TableRun) (c : TableCall α) (calls : List (TableCall α)) :
    r.after (c :: calls) = (r.next c).after calls :=
  rfl

/-! ## What every run keeps -/

/-- The tables in use are consistent, and the tables that are held exist. -/
structure Sound (r : TableRun) : Prop where
  consistent : r.tables.Consistent
  bounded : ∀ id ∈ r.held, id < r.tables.tables.size

theorem sound_start (schemes : SchemeRegistry) : (start schemes).Sound where
  consistent := SharedTables.consistent_of_schemes schemes
  bounded _ h := nomatch h

/-- A call keeps a run sound. -/
theorem Sound.next (h : r.Sound) (c : TableCall α) : (r.next c).Sound := by
  cases c with
  | request scheme group =>
    refine ⟨h.consistent.tableFor scheme group, ?_⟩
    intro id hid
    show id < (r.tables.tableFor scheme group).2.tables.size
    rcases List.mem_append.mp hid with hold | hnew
    · have hlt := h.bounded id hold
      have hle := r.tables.size_le_tableFor scheme group
      omega
    · rw [List.mem_singleton.mp hnew]
      exact h.consistent.tableFor_lt scheme group
  | use i u =>
    rcases next_use r i u with ⟨id, -, hnext⟩ | ⟨-, hnext⟩
    · rw [hnext]
      refine ⟨h.consistent.update id u.palette_act, ?_⟩
      intro id' hid'
      show id' < (r.tables.update id u.act).2.tables.size
      rw [SharedTables.size_update]
      exact h.bounded id' hid'
    · rw [hnext]
      exact h
  | reset => exact ⟨SharedTables.Consistent.reset r.tables, h.bounded⟩

theorem Sound.after (h : r.Sound) (calls : List (TableCall α)) : (r.after calls).Sound := by
  induction calls generalizing r with
  | nil => exact h
  | cons c calls ih => exact ih (h.next c)

/-- No table is ever taken away. -/
theorem size_le_next (r : TableRun) (c : TableCall α) :
    r.tables.tables.size ≤ (r.next c).tables.tables.size := by
  cases c with
  | request scheme group => exact r.tables.size_le_tableFor scheme group
  | use i u =>
    rcases next_use r i u with ⟨id, -, hnext⟩ | ⟨-, hnext⟩
    · rw [hnext]
      exact Nat.le_of_eq (r.tables.size_update id u.act).symm
    · exact Nat.le_of_eq (by rw [hnext])
  | reset => exact Nat.le_refl r.tables.tables.size

theorem schemes_next (r : TableRun) (c : TableCall α) : (r.next c).tables.schemes = r.tables.schemes := by
  cases c with
  | request scheme group => exact r.tables.schemes_tableFor scheme group
  | use i u =>
    rcases next_use r i u with ⟨id, -, hnext⟩ | ⟨-, hnext⟩
    · rw [hnext]
      rfl
    · rw [hnext]
  | reset => rfl

theorem schemes_after (r : TableRun) (calls : List (TableCall α)) :
    (r.after calls).tables.schemes = r.tables.schemes := by
  induction calls generalizing r with
  | nil => rfl
  | cons c calls ih => exact (ih (r.next c)).trans (schemes_next r c)

/-- What is in use stays in use until a reset. -/
theorem inUse?_next {key : String × String} (hc : c ≠ .reset) (h : r.tables.inUse? key = some id) :
    (r.next c).tables.inUse? key = some id := by
  cases c with
  | request scheme group => exact SharedTables.inUse?_tableFor_of_inUse scheme group h
  | use i u =>
    rcases next_use r i u with ⟨id', -, hnext⟩ | ⟨-, hnext⟩
    · rw [hnext]
      exact h
    · rw [hnext]
      exact h
  | reset => exact absurd rfl hc

theorem inUse?_after {key : String × String} {calls : List (TableCall α)}
    (hcalls : TableCall.reset ∉ calls) (h : r.tables.inUse? key = some id) :
    (r.after calls).tables.inUse? key = some id := by
  induction calls generalizing r with
  | nil => exact h
  | cons c calls ih =>
    rw [List.mem_cons, not_or] at hcalls
    exact ih hcalls.2 (inUse?_next (Ne.symm hcalls.1) h)

/-! ## Runs that differ in one table -/

/-- Two runs in which the same was requested, and whose tables are the same but for one. -/
structure AgreeExcept (id : Nat) (r r' : TableRun) : Prop where
  schemes : r'.tables.schemes = r.tables.schemes
  current : r'.tables.current = r.tables.current
  size : r'.tables.tables.size = r.tables.tables.size
  held : r'.held = r.held
  table : ∀ k, k ≠ id → r'.tables.table k = r.tables.table k

/-- A use of a table changes no other. -/
theorem agreeExcept_use (h : r.held[i]? = some id) (u : TableUse α) :
    AgreeExcept id r (r.next (.use i u)) := by
  rw [next_use_of_held h]
  refine ⟨rfl, rfl, r.tables.size_update id u.act, rfl, ?_⟩
  intro k hk
  show (r.tables.update id u.act).2.table k = r.tables.table k
  rw [SharedTables.table_update, if_neg (fun hsame => hk hsame.1)]

/-- The tables that are not the one in question answer alike. -/
theorem AgreeExcept.answer_eq (h : AgreeExcept id r r') (hne : r.held[i]? ≠ some id)
    (u : TableUse α) : (r'.call (.use i u)).1 = (r.call (.use i u)).1 := by
  have hheld' : r'.held[i]? = r.held[i]? := by rw [h.held]
  cases hheld : r.held[i]? with
  | some k =>
    rw [hheld] at hheld' hne
    rw [call_use_of_held hheld, call_use_of_held hheld',
      h.table k (fun hk => hne (congrArg some hk))]
  | none =>
    rw [hheld] at hheld'
    rw [call_use_of_not_held hheld, call_use_of_not_held hheld']

/-- A request gets the same table in both, and makes the same one if there is none. -/
theorem AgreeExcept.request (h : AgreeExcept id r r') (scheme group : Option String) :
    AgreeExcept id (r.next (.request scheme group : TableCall α))
      (r'.next (.request scheme group : TableCall α)) := by
  have hkey : r'.tables.requestKey scheme group = r.tables.requestKey scheme group := by
    unfold SharedTables.requestKey
    rw [h.schemes]
  have hinUse : r'.tables.inUse? (r'.tables.requestKey scheme group)
      = r.tables.inUse? (r.tables.requestKey scheme group) := by
    unfold SharedTables.inUse?
    rw [hkey, h.current]
  rw [next_request, next_request]
  cases hnew : r.tables.inUse? (r.tables.requestKey scheme group) with
  | some k =>
    rw [hnew] at hinUse
    rw [SharedTables.tableFor_of_inUse hnew, SharedTables.tableFor_of_inUse hinUse]
    exact ⟨h.schemes, h.current, h.size, by rw [h.held], h.table⟩
  | none =>
    rw [hnew] at hinUse
    have htable := SharedTables.table_tableFor_of_new hnew
    have htable' := SharedTables.table_tableFor_of_new hinUse
    rw [SharedTables.tableFor_of_new hnew] at htable ⊢
    rw [SharedTables.tableFor_of_new hinUse] at htable' ⊢
    -- there are as many tables, so the new one has the same number
    refine ⟨h.schemes, ?_, ?_, ?_, ?_⟩
    · show (_, _) :: r'.tables.current = (_, _) :: r.tables.current
      rw [hkey, h.size, h.current]
    · show (r'.tables.tables.push _).size = (r.tables.tables.push _).size
      rw [Array.size_push, Array.size_push, h.size]
    · show r'.held ++ [r'.tables.tables.size] = r.held ++ [r.tables.tables.size]
      rw [h.held, h.size]
    · intro k hk
      show SharedTables.table _ k = SharedTables.table _ k
      rw [htable, htable', h.size, h.schemes, h.table k hk]

/-- A call keeps the tables the same but for the one. -/
theorem AgreeExcept.next (h : AgreeExcept id r r') (c : TableCall α) :
    AgreeExcept id (r.next c) (r'.next c) := by
  cases c with
  | request scheme group => exact h.request scheme group
  | use i u =>
    have hheld' : r'.held[i]? = r.held[i]? := by rw [h.held]
    cases hheld : r.held[i]? with
    | some k =>
      rw [hheld] at hheld'
      rw [next_use_of_held hheld, next_use_of_held hheld']
      refine ⟨h.schemes, h.current, ?_, h.held, ?_⟩
      · rw [SharedTables.size_update, SharedTables.size_update, h.size]
      · intro k' hk'
        rw [SharedTables.table_update, SharedTables.table_update, h.size, h.table k' hk']
        by_cases hsame : k' = k ∧ k < r.tables.tables.size
        · -- the table that is used is not the one in which the runs differ
          rw [if_pos hsame, if_pos hsame, ← hsame.1, h.table k' hk']
        · rw [if_neg hsame, if_neg hsame]
    | none =>
      rw [hheld] at hheld'
      rw [next_use_of_not_held hheld, next_use_of_not_held hheld']
      exact h
  | reset => exact ⟨h.schemes, rfl, h.size, h.held, h.table⟩

theorem AgreeExcept.after (h : AgreeExcept id r r') (calls : List (TableCall α)) :
    AgreeExcept id (r.after calls) (r'.after calls) := by
  induction calls generalizing r r' with
  | nil => exact h
  | cons c calls ih => exact ih (h.next c)

/-! ## The history of a table -/

/-- The use that a call makes of a table. -/
def useOf? (r : TableRun) (id : Nat) : TableCall α → Option (TableUse α)
  | .use i u => if r.held[i]? = some id then some u else none
  | .request _ _ | .reset => none

omit [Scalar α] in
theorem useOf?_use (r : TableRun) (id i : Nat) (u : TableUse α) :
    r.useOf? id (.use i u) = if r.held[i]? = some id then some u else none :=
  rfl

/-- The uses that calls make of a table, in order. -/
def usesOf (id : Nat) : TableRun → List (TableCall α) → List (TableUse α)
  | _, [] => []
  | r, c :: calls => (r.useOf? id c).toList ++ usesOf id (r.next c) calls

/-- What uses in a row make of a table. -/
def replay (uses : List (TableUse α)) (t : ColorTable) : ColorTable :=
  uses.foldl (fun t u => (u.act t).2) t

theorem palette_replay (uses : List (TableUse α)) (t : ColorTable) :
    (replay uses t).palette = t.palette := by
  induction uses generalizing t with
  | nil => rfl
  | cons u uses ih => exact (ih (u.act t).2).trans (u.palette_act t)

omit [Scalar α] in
/-- Only what exists is used. -/
theorem Sound.useOf?_eq_none (h : r.Sound) (hid : r.tables.tables.size ≤ id) (c : TableCall α) :
    r.useOf? id c = none := by
  cases c with
  | use i u =>
    refine if_neg fun hheld => ?_
    have hlt := h.bounded id (List.mem_of_getElem? hheld)
    omega
  | request scheme group => rfl
  | reset => rfl

/-- A call does to a table what it uses it for. -/
theorem table_next (hid : id < r.tables.tables.size) (c : TableCall α) :
    (r.next c).tables.table id = replay (r.useOf? id c).toList (r.tables.table id) := by
  cases c with
  | request scheme group => exact SharedTables.table_tableFor scheme group hid
  | use i u =>
    rw [useOf?_use]
    rcases next_use r i u with ⟨k, hheld, hnext⟩ | ⟨hheld, hnext⟩
    · rw [hnext, hheld]
      show (r.tables.update k u.act).2.table id = _
      rw [SharedTables.table_update]
      by_cases hsame : id = k
      · subst hsame
        rw [if_pos ⟨rfl, hid⟩, if_pos rfl]
        rfl
      · rw [if_neg (fun hboth => hsame hboth.1), if_neg (fun heq => hsame (Option.some.inj heq).symm)]
        rfl
    · rw [hnext, hheld, if_neg nofun]
      rfl
  | reset => rfl

/-- A call that makes a table makes it fresh. -/
theorem table_next_of_new (hid : r.tables.tables.size ≤ id) (c : TableCall α)
    (hlt : id < (r.next c).tables.tables.size) :
    (r.next c).tables.table id = { palette := ((r.next c).tables.table id).palette } := by
  cases c with
  | request scheme group =>
    change id < (r.tables.tableFor scheme group).2.tables.size at hlt
    show (r.tables.tableFor scheme group).2.table id
      = { palette := ((r.tables.tableFor scheme group).2.table id).palette }
    cases hnew : r.tables.inUse? (r.tables.requestKey scheme group) with
    | some k =>
      rw [SharedTables.tableFor_of_inUse hnew] at hlt
      dsimp only at hlt
      omega
    | none =>
      rw [SharedTables.table_tableFor_of_new hnew]
      rw [SharedTables.tableFor_of_new hnew] at hlt
      have hsize : id = r.tables.tables.size := by
        change id < (r.tables.tables.push _).size at hlt
        rw [Array.size_push] at hlt
        omega
      rw [if_pos hsize]
  | use i u =>
    have hsize : (r.next (.use i u)).tables.tables.size = r.tables.tables.size := by
      rcases next_use r i u with ⟨k, -, hnext⟩ | ⟨-, hnext⟩
      · rw [hnext]
        exact SharedTables.size_update r.tables k u.act
      · rw [hnext]
    omega
  | reset =>
    have hlt' : id < r.tables.tables.size := hlt
    omega

/-- A table that exists goes through its own uses, and nothing else. -/
theorem table_after_of_lt (hid : id < r.tables.tables.size)
    (calls : List (TableCall α)) :
    (r.after calls).tables.table id = replay (usesOf id r calls) (r.tables.table id) := by
  induction calls generalizing r with
  | nil => rfl
  | cons c calls ih =>
    have hid' : id < (r.next c).tables.tables.size := Nat.lt_of_lt_of_le hid (size_le_next r c)
    rw [after_cons, ih hid', table_next hid, usesOf]
    exact (List.foldl_append ..).symm

/-- **A table is what its uses have made of it.** A table that is made in a run starts out fresh and goes
through its own uses, and nothing else. -/
theorem Sound.table_after (h : r.Sound) (hid : r.tables.tables.size ≤ id) (calls : List (TableCall α))
    (hlt : id < (r.after calls).tables.tables.size) :
    (r.after calls).tables.table id
      = replay (usesOf id r calls) { palette := ((r.after calls).tables.table id).palette } := by
  induction calls generalizing r with
  | nil => exact absurd hlt (Nat.not_lt.mpr hid)
  | cons c calls ih =>
    -- nobody uses the table before it is made
    rw [usesOf, h.useOf?_eq_none hid c]
    by_cases hnext : id < (r.next c).tables.tables.size
    · have hrest := table_after_of_lt hnext calls
      have hpalette : ((r.after (c :: calls)).tables.table id).palette
          = ((r.next c).tables.table id).palette := by
        rw [after_cons, hrest, palette_replay]
      rw [hpalette, ← table_next_of_new hid c hnext]
      exact hrest
    · exact ih (h.next c) (Nat.le_of_not_lt hnext) hlt

end TableRun

end VisualEncoding
