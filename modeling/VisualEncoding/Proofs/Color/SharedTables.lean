import VisualEncoding.Color.SharedTables
import VisualEncoding.Proofs.Color.Table

/-!
# The tables in use

A request names a scheme and a group, and gets the table that is in use for them. Requests only ever add
to what is in use, so whoever asks again gets the same table, until a reset takes all tables out of use.

> `Consistent`: a table in use exists, serves one scheme and group only, and has the colors of that scheme.

Making, changing and dropping tables keep this.
-/

namespace VisualEncoding

namespace SharedTables

variable {s : SharedTables} {scheme group : Option String} {key : String × String} {id : Nat}

/-- The number of the table that is in use for a scheme and group. -/
def inUse? (s : SharedTables) (key : String × String) : Option Nat := s.current.lookup key

/-- The tables in use exist, serve one scheme and group each, and have the colors of that scheme. -/
structure Consistent (s : SharedTables) : Prop where
  bounds : ∀ key id, s.inUse? key = some id → id < s.tables.size
  injective : ∀ key key' id, s.inUse? key = some id → s.inUse? key' = some id → key = key'
  palette : ∀ key id, s.inUse? key = some id →
    (s.table id).palette = (s.schemes.categorical? key.1).getD []

/-- Nothing is in use at the start. -/
theorem consistent_of_schemes (schemes : SchemeRegistry) : ({ schemes } : SharedTables).Consistent where
  bounds _ _ h := nomatch h
  injective _ _ _ h := nomatch h
  palette _ _ h := nomatch h

/-! ## Requests -/

theorem tableFor_of_inUse (h : s.inUse? (s.requestKey scheme group) = some id) :
    s.tableFor scheme group = (id, s) := by
  unfold tableFor
  dsimp only
  rw [show s.current.lookup (s.requestKey scheme group) = some id from h]

theorem tableFor_of_new (h : s.inUse? (s.requestKey scheme group) = none) :
    s.tableFor scheme group = (s.tables.size,
      { s with
        tables := s.tables.push { palette := s.schemes.palette scheme }
        current := (s.requestKey scheme group, s.tables.size) :: s.current }) := by
  unfold tableFor
  dsimp only
  rw [show s.current.lookup (s.requestKey scheme group) = none from h]

theorem schemes_tableFor (s : SharedTables) (scheme group : Option String) :
    (s.tableFor scheme group).2.schemes = s.schemes := by
  cases h : s.inUse? (s.requestKey scheme group) with
  | some id => rw [tableFor_of_inUse h]
  | none => rw [tableFor_of_new h]

/-- A request puts its table into use and leaves the others in use. -/
theorem inUse?_tableFor (s : SharedTables) (scheme group : Option String) (key : String × String) :
    (s.tableFor scheme group).2.inUse? key
      = if key = s.requestKey scheme group then some (s.tableFor scheme group).1 else s.inUse? key := by
  cases h : s.inUse? (s.requestKey scheme group) with
  | some id =>
    rw [tableFor_of_inUse h]
    by_cases hkey : key = s.requestKey scheme group
    · rw [if_pos hkey, hkey, h]
    · rw [if_neg hkey]
  | none =>
    rw [tableFor_of_new h]
    by_cases hkey : key = s.requestKey scheme group
    · rw [if_pos hkey, hkey]
      exact List.lookup_cons_self
    · rw [if_neg hkey]
      exact lookup_cons_of_ne hkey

/-- What is in use stays in use when something is requested. -/
theorem inUse?_tableFor_of_inUse (scheme group : Option String) (h : s.inUse? key = some id) :
    (s.tableFor scheme group).2.inUse? key = some id := by
  rw [inUse?_tableFor]
  by_cases hkey : key = s.requestKey scheme group
  · subst hkey
    rw [if_pos rfl, tableFor_of_inUse h]
  · rw [if_neg hkey, h]

theorem requestKey_tableFor (s : SharedTables) (scheme group scheme' group' : Option String) :
    (s.tableFor scheme group).2.requestKey scheme' group' = s.requestKey scheme' group' := by
  unfold requestKey
  rw [schemes_tableFor]

/-- Who asks again gets the same table, and nothing changes. -/
theorem tableFor_tableFor (s : SharedTables) (scheme group : Option String) :
    (s.tableFor scheme group).2.tableFor scheme group = s.tableFor scheme group := by
  have hinUse : (s.tableFor scheme group).2.inUse? ((s.tableFor scheme group).2.requestKey scheme group)
      = some (s.tableFor scheme group).1 := by
    rw [requestKey_tableFor, inUse?_tableFor, if_pos rfl]
  exact tableFor_of_inUse hinUse

/-- A request does not touch the tables that exist. -/
theorem table_tableFor (scheme group : Option String) (h : id < s.tables.size) :
    (s.tableFor scheme group).2.table id = s.table id := by
  cases hkey : s.inUse? (s.requestKey scheme group) with
  | some id' => rw [tableFor_of_inUse hkey]
  | none =>
    rw [tableFor_of_new hkey]
    unfold table
    rw [Array.getElem?_push_lt h, Array.getElem?_eq_getElem h]

/-- A request that finds no table makes one with the colors of its scheme. -/
theorem table_tableFor_of_new (h : s.inUse? (s.requestKey scheme group) = none) (id : Nat) :
    (s.tableFor scheme group).2.table id
      = if id = s.tables.size then { palette := s.schemes.palette scheme } else s.table id := by
  rw [tableFor_of_new h]
  unfold table
  rw [Array.getElem?_push]
  by_cases hid : id = s.tables.size
  · rw [if_pos hid, if_pos hid]
    rfl
  · rw [if_neg hid, if_neg hid]

/-- No table is ever taken away. -/
theorem size_le_tableFor (s : SharedTables) (scheme group : Option String) :
    s.tables.size ≤ (s.tableFor scheme group).2.tables.size := by
  cases h : s.inUse? (s.requestKey scheme group) with
  | some id => exact Nat.le_of_eq (by rw [tableFor_of_inUse h])
  | none =>
    rw [tableFor_of_new h]
    show s.tables.size ≤ (s.tables.push _).size
    rw [Array.size_push]
    omega

theorem Consistent.tableFor (h : s.Consistent) (scheme group : Option String) :
    (s.tableFor scheme group).2.Consistent := by
  cases hnew : s.inUse? (s.requestKey scheme group) with
  | some id =>
    rw [tableFor_of_inUse hnew]
    exact h
  | none =>
    have hinUse := inUse?_tableFor s scheme group
    have htable : ∀ id, id < s.tables.size → (s.tableFor scheme group).2.table id = s.table id :=
      fun _ hlt => table_tableFor scheme group hlt
    rw [tableFor_of_new hnew] at hinUse htable ⊢
    dsimp only at hinUse htable
    constructor
    · intro key id hid
      rw [hinUse] at hid
      show id < (s.tables.push _).size
      rw [Array.size_push]
      by_cases hkey : key = s.requestKey scheme group
      · rw [if_pos hkey] at hid
        cases hid
        exact Nat.lt_succ_self _
      · rw [if_neg hkey] at hid
        exact Nat.lt_succ_of_lt (h.bounds key id hid)
    · intro key key' id hid hid'
      rw [hinUse] at hid hid'
      -- the new table has a number that no table in use has
      by_cases hkey : key = s.requestKey scheme group
      · by_cases hkey' : key' = s.requestKey scheme group
        · exact hkey.trans hkey'.symm
        · rw [if_pos hkey] at hid
          rw [if_neg hkey'] at hid'
          cases hid
          exact absurd (h.bounds key' _ hid') (Nat.lt_irrefl _)
      · rw [if_neg hkey] at hid
        by_cases hkey' : key' = s.requestKey scheme group
        · rw [if_pos hkey'] at hid'
          cases hid'
          exact absurd (h.bounds key _ hid) (Nat.lt_irrefl _)
        · rw [if_neg hkey'] at hid'
          exact h.injective key key' id hid hid'
    · intro key id hid
      rw [hinUse] at hid
      by_cases hkey : key = s.requestKey scheme group
      · rw [if_pos hkey] at hid
        cases hid
        unfold table
        rw [Array.getElem?_push_size, hkey]
        rfl
      · rw [if_neg hkey] at hid
        rw [htable id (h.bounds key id hid)]
        exact h.palette key id hid

/-- The table that is requested exists. -/
theorem Consistent.tableFor_lt (h : s.Consistent) (scheme group : Option String) :
    (s.tableFor scheme group).1 < (s.tableFor scheme group).2.tables.size := by
  refine (h.tableFor scheme group).bounds (s.requestKey scheme group) _ ?_
  rw [inUse?_tableFor, if_pos rfl]

/-- The table that is requested has the colors of the scheme. -/
theorem Consistent.palette_tableFor (h : s.Consistent) (scheme group : Option String) :
    ((s.tableFor scheme group).2.table (s.tableFor scheme group).1).palette = s.schemes.palette scheme := by
  have hinUse : (s.tableFor scheme group).2.inUse? (s.requestKey scheme group)
      = some (s.tableFor scheme group).1 := by
    rw [inUse?_tableFor, if_pos rfl]
  rw [(h.tableFor scheme group).palette _ _ hinUse, schemes_tableFor]
  rfl

/-! ## Steps on a table -/

variable {β : Type} {step : ColorTable → β × ColorTable}

/-- A step on a table changes no other table. -/
theorem table_update (s : SharedTables) (id id' : Nat) (step : ColorTable → β × ColorTable) :
    (s.update id step).2.table id'
      = if id' = id ∧ id < s.tables.size then (step (s.table id)).2 else s.table id' := by
  show ((s.tables.setIfInBounds id (step (s.table id)).2)[id']?).getD _ = _
  rw [Array.getElem?_setIfInBounds]
  by_cases hid : id = id'
  · subst hid
    by_cases hlt : id < s.tables.size
    · rw [if_pos rfl, if_pos hlt, if_pos ⟨rfl, hlt⟩]
      rfl
    · rw [if_pos rfl, if_neg hlt, if_neg (fun h => hlt h.2)]
      unfold table
      rw [Array.getElem?_eq_none (Nat.le_of_not_lt hlt)]
  · rw [if_neg hid, if_neg (fun h => hid h.1.symm)]
    rfl

theorem size_update (s : SharedTables) (id : Nat) (step : ColorTable → β × ColorTable) :
    (s.update id step).2.tables.size = s.tables.size :=
  Array.size_setIfInBounds

/-- A step that keeps palettes keeps the tables in use. -/
theorem Consistent.update (h : s.Consistent) (id : Nat)
    (hstep : ∀ t, (step t).2.palette = t.palette) : (s.update id step).2.Consistent where
  bounds key id' hid' := by
    show id' < (s.tables.setIfInBounds id _).size
    rw [Array.size_setIfInBounds]
    exact h.bounds key id' hid'
  injective := h.injective
  palette key id' hid' := by
    rw [table_update]
    by_cases hid : id' = id ∧ id < s.tables.size
    · rw [if_pos hid, hstep, ← hid.1]
      exact h.palette key id' hid'
    · rw [if_neg hid]
      exact h.palette key id' hid'

/-! ## Steps on a requested table -/

/-- Requests a table and changes it. -/
def changeFor (s : SharedTables) (scheme group : Option String) (change : ColorTable → ColorTable) :
    SharedTables :=
  let (id, s) := s.tableFor scheme group
  (s.update id fun t => ((), change t)).2

theorem schemes_changeFor (s : SharedTables) (scheme group : Option String)
    (change : ColorTable → ColorTable) : (s.changeFor scheme group change).schemes = s.schemes :=
  schemes_tableFor s scheme group

theorem size_changeFor (s : SharedTables) (scheme group : Option String)
    (change : ColorTable → ColorTable) :
    (s.changeFor scheme group change).tables.size = (s.tableFor scheme group).2.tables.size :=
  size_update ..

/-- A request right before changes nothing. -/
theorem changeFor_tableFor (s : SharedTables) (scheme group : Option String)
    (change : ColorTable → ColorTable) :
    (s.tableFor scheme group).2.changeFor scheme group change = s.changeFor scheme group change := by
  unfold changeFor
  rw [tableFor_tableFor]

theorem inUse?_changeFor_of_inUse (scheme group : Option String) (change : ColorTable → ColorTable)
    (h : s.inUse? key = some id) : (s.changeFor scheme group change).inUse? key = some id :=
  inUse?_tableFor_of_inUse scheme group h

/-- The table that was changed is in use for what was requested. -/
theorem inUse?_changeFor (s : SharedTables) (scheme group : Option String)
    (change : ColorTable → ColorTable) :
    (s.changeFor scheme group change).inUse? (s.requestKey scheme group)
      = some (s.tableFor scheme group).1 := by
  show (s.tableFor scheme group).2.inUse? _ = _
  rw [inUse?_tableFor, if_pos rfl]

theorem Consistent.changeFor (h : s.Consistent) (scheme group : Option String)
    {change : ColorTable → ColorTable} (hchange : ∀ t, (change t).palette = t.palette) :
    (s.changeFor scheme group change).Consistent :=
  (h.tableFor scheme group).update _ hchange

/-- Of the tables in use, the one that is requested changes, and no other. -/
theorem table_changeFor (h : s.Consistent) (scheme group : Option String)
    (change : ColorTable → ColorTable) (hid : s.inUse? key = some id) :
    (s.changeFor scheme group change).table id
      = if key = s.requestKey scheme group then change (s.table id) else s.table id := by
  have hlt := h.bounds key id hid
  unfold changeFor
  dsimp only
  rw [table_update]
  by_cases hkey : key = s.requestKey scheme group
  · subst hkey
    rw [if_pos rfl, tableFor_of_inUse hid, if_pos ⟨rfl, hlt⟩]
  · -- a table serves one request only, so another request is about another table
    have hne : id ≠ (s.tableFor scheme group).1 := by
      intro hsame
      refine hkey ((h.tableFor scheme group).injective key _ id ?_ ?_)
      · exact inUse?_tableFor_of_inUse scheme group hid
      · rw [inUse?_tableFor, if_pos rfl, hsame]
    rw [if_neg hkey, if_neg (fun hsame => hne hsame.1), table_tableFor scheme group hlt]

/-- The table that is requested changes, whether it was there before or is made for the request. -/
theorem table_changeFor_self (h : s.Consistent) (scheme group : Option String)
    (change : ColorTable → ColorTable) :
    (s.changeFor scheme group change).table (s.tableFor scheme group).1
      = change ((s.tableFor scheme group).2.table (s.tableFor scheme group).1) := by
  unfold changeFor
  dsimp only
  rw [table_update, if_pos ⟨rfl, h.tableFor_lt scheme group⟩]

/-! ## Resets -/

theorem Consistent.reset (s : SharedTables) : s.reset.Consistent where
  bounds _ _ h := nomatch h
  injective _ _ _ h := nomatch h
  palette _ _ h := nomatch h

end SharedTables

end VisualEncoding
