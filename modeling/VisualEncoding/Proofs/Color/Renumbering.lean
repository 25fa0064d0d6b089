import Mathlib.Logic.Function.Basic
import VisualEncoding.Proofs.Color.SharedTables

/-!
# Tables under other numbers

The number of a table tells how many were made before it, which nobody can see who only ever passes
numbers back. So tables can be compared up to their numbers:

> `Embeds f s s'`: whatever table there is in `s`, there is the same in `s'` under the number that `f` gives
> it, and it is in use for the same. What else is in use in `s'` has given out no color yet.

A table that was requested and not used is such an extra one (`embeds_tableFor_right`). A request on both
sides gets tables with the same content: if there is one in `s'` only, then it is as good as new. It goes
on with the new table added to the renumbering (`Embeds.tableFor`).
-/

namespace VisualEncoding.SharedTables

variable {s s' : SharedTables} {f : Nat → Nat} {scheme group : Option String}

/-- The tables of `s` are in `s'` under the numbers that `f` gives them. Other tables that are in use in `s'`
are as they were made. -/
structure Embeds (f : Nat → Nat) (s s' : SharedTables) : Prop where
  consistent : s.Consistent
  consistent' : s'.Consistent
  schemes : s'.schemes = s.schemes
  lt : ∀ id < s.tables.size, f id < s'.tables.size
  inj : ∀ id < s.tables.size, ∀ id' < s.tables.size, f id = f id' → id = id'
  table : ∀ id < s.tables.size, s'.table (f id) = s.table id
  inUse : ∀ key id, s.inUse? key = some id → s'.inUse? key = some (f id)
  spare : ∀ key id', s.inUse? key = none → s'.inUse? key = some id' →
    (∀ id < s.tables.size, f id ≠ id') ∧ (s'.table id').assigned = []

/-- The same table, one of the first `n`, up to a renumbering. -/
def Renumbered (f : Nat → Nat) (n id id' : Nat) : Prop := id < n ∧ id' = f id

theorem Renumbered.mono {g : Nat → Nat} {n m id id' : Nat} (h : Renumbered f n id id')
    (hfg : ∀ id < n, g id = f id) (hnm : n ≤ m) : Renumbered g m id id' :=
  ⟨Nat.lt_of_lt_of_le h.1 hnm, h.2.trans (hfg id h.1).symm⟩

theorem Embeds.refl (h : s.Consistent) : Embeds id s s where
  consistent := h
  consistent' := h
  schemes := rfl
  lt _ hid := hid
  inj _ _ _ _ hsame := hsame
  table _ _ := rfl
  inUse _ _ hid := hid
  spare key id' hnone hsome := by
    rw [hnone] at hsome
    nomatch hsome

/-- One renumbering after another. -/
theorem Embeds.trans {s'' : SharedTables} {g : Nat → Nat} (h : Embeds f s s') (h' : Embeds g s' s'') :
    Embeds (g ∘ f) s s'' where
  consistent := h.consistent
  consistent' := h'.consistent'
  schemes := h'.schemes.trans h.schemes
  lt id hid := h'.lt (f id) (h.lt id hid)
  inj id hid id' hid' hsame := h.inj id hid id' hid' (h'.inj (f id) (h.lt id hid) (f id') (h.lt id' hid') hsame)
  table id hid := (h'.table (f id) (h.lt id hid)).trans (h.table id hid)
  inUse key id hid := h'.inUse key (f id) (h.inUse key id hid)
  spare key id'' hnone hsome := by
    cases hmiddle : s'.inUse? key with
    | some id' =>
      -- the extra table is one of the middle, under the number that it has there
      obtain ⟨hne, hassigned⟩ := h.spare key id' hnone hmiddle
      have hlt := h.consistent'.bounds key id' hmiddle
      cases (h'.inUse key id' hmiddle).symm.trans hsome
      refine ⟨fun id hid hsame => hne id hid (h'.inj (f id) (h.lt id hid) id' hlt hsame), ?_⟩
      rw [h'.table id' hlt, hassigned]
    | none =>
      obtain ⟨hne, hassigned⟩ := h'.spare key id'' hmiddle hsome
      exact ⟨fun id hid => hne (f id) (h.lt id hid), hassigned⟩

theorem Embeds.requestKey (h : Embeds f s s') (scheme group : Option String) :
    s'.requestKey scheme group = s.requestKey scheme group := by
  unfold SharedTables.requestKey
  rw [h.schemes]

/-- A request right before adds at most a table that has not been touched. -/
theorem embeds_tableFor_right (h : s.Consistent) (scheme group : Option String) :
    Embeds id s (s.tableFor scheme group).2 where
  consistent := h
  consistent' := h.tableFor scheme group
  schemes := schemes_tableFor s scheme group
  lt _ hid := Nat.lt_of_lt_of_le hid (s.size_le_tableFor scheme group)
  inj _ _ _ _ hsame := hsame
  table _ hid := table_tableFor scheme group hid
  inUse _ _ hid := inUse?_tableFor_of_inUse scheme group hid
  spare key id' hnone hsome := by
    rw [inUse?_tableFor] at hsome
    by_cases hkey : key = s.requestKey scheme group
    · -- the table was made by the request
      subst hkey
      rw [if_pos rfl] at hsome
      cases hsome
      rw [table_tableFor_of_new hnone, tableFor_of_new hnone]
      refine ⟨fun id hid => Nat.ne_of_lt hid, ?_⟩
      rw [if_pos rfl]
    · rw [if_neg hkey, hnone] at hsome
      nomatch hsome

/-! ## Requests on both sides -/

/-- The table that `s'` has for a request to which `s` has none is as good as new, and is not one of those
of `s`. -/
theorem Embeds.tableFor_of_new (h : Embeds f s s') (hnew : s.inUse? (s.requestKey scheme group) = none) :
    (s'.tableFor scheme group).2.table (s'.tableFor scheme group).1
        = { palette := s.schemes.palette scheme } ∧
      ∀ id < s.tables.size, f id ≠ (s'.tableFor scheme group).1 := by
  cases hkey : s'.inUse? (s'.requestKey scheme group) with
  | some id' =>
    -- a table that was requested there only has the colors of the scheme, and none given out
    rw [tableFor_of_inUse hkey]
    have hpalette := h.consistent'.palette _ _ hkey
    rw [h.requestKey] at hkey
    obtain ⟨hne, hassigned⟩ := h.spare _ id' hnew hkey
    refine ⟨?_, hne⟩
    show s'.table id' = _
    generalize s'.table id' = t at hpalette hassigned ⊢
    obtain ⟨palette, assigned⟩ := t
    dsimp only at hpalette hassigned
    rw [hpalette, hassigned, ← h.schemes]
    rfl
  | none =>
    rw [table_tableFor_of_new hkey, SharedTables.tableFor_of_new hkey, if_pos rfl, h.schemes]
    exact ⟨rfl, fun id hid => Nat.ne_of_lt (h.lt id hid)⟩

/-- The number of a table is that of the new one or of one that was there. -/
theorem eq_or_lt_of_lt_tableFor (hnew : s.inUse? (s.requestKey scheme group) = none) {id : Nat}
    (h : id < (s.tableFor scheme group).2.tables.size) : id = s.tables.size ∨ id < s.tables.size := by
  have hsize : (s.tableFor scheme group).2.tables.size = s.tables.size + 1 := by
    rw [SharedTables.tableFor_of_new hnew]
    exact Array.size_push ..
  omega

/-- A renumbering goes on to the tables that a request makes or finds on both sides. -/
theorem Embeds.tableFor_extend (h : Embeds f s s')
    (hnew : s.inUse? (s.requestKey scheme group) = none) {g : Nat → Nat}
    (hself : g s.tables.size = (s'.tableFor scheme group).1) (hold : ∀ id < s.tables.size, g id = f id) :
    Embeds g (s.tableFor scheme group).2 (s'.tableFor scheme group).2 where
  consistent := h.consistent.tableFor scheme group
  consistent' := h.consistent'.tableFor scheme group
  schemes := by rw [schemes_tableFor, schemes_tableFor, h.schemes]
  lt id hid := by
    rcases eq_or_lt_of_lt_tableFor hnew hid with rfl | hlt
    · rw [hself]
      exact h.consistent'.tableFor_lt scheme group
    · rw [hold id hlt]
      exact Nat.lt_of_lt_of_le (h.lt id hlt) (s'.size_le_tableFor scheme group)
  inj id hid id' hid' hsame := by
    -- the new table has a number on the other side that no table from before has there
    have hapart := (h.tableFor_of_new hnew).2
    rcases eq_or_lt_of_lt_tableFor hnew hid with rfl | hlt
    · rcases eq_or_lt_of_lt_tableFor hnew hid' with rfl | hlt'
      · rfl
      · rw [hself, hold id' hlt'] at hsame
        exact absurd hsame.symm (hapart id' hlt')
    · rcases eq_or_lt_of_lt_tableFor hnew hid' with rfl | hlt'
      · rw [hself, hold id hlt] at hsame
        exact absurd hsame (hapart id hlt)
      · rw [hold id hlt, hold id' hlt'] at hsame
        exact h.inj id hlt id' hlt' hsame
  table id hid := by
    rw [table_tableFor_of_new hnew]
    rcases eq_or_lt_of_lt_tableFor hnew hid with rfl | hlt
    · rw [hself, (h.tableFor_of_new hnew).1, if_pos rfl]
    · rw [hold id hlt, table_tableFor scheme group (h.lt id hlt), h.table id hlt,
        if_neg (Nat.ne_of_lt hlt)]
  inUse key id hid := by
    rw [inUse?_tableFor] at hid ⊢
    rw [h.requestKey]
    by_cases hkey : key = s.requestKey scheme group
    · rw [if_pos hkey, SharedTables.tableFor_of_new hnew] at hid
      cases hid
      rw [if_pos hkey, hself]
    · rw [if_neg hkey] at hid ⊢
      rw [hold id (h.consistent.bounds key id hid), h.inUse key id hid]
  spare key id' hnone hsome := by
    -- what was requested is in use on both sides now, so this is about another request
    have hkey : key ≠ s.requestKey scheme group := by
      rintro rfl
      rw [inUse?_tableFor, if_pos rfl] at hnone
      nomatch hnone
    rw [inUse?_tableFor, if_neg hkey] at hnone
    have hsome' := hsome
    rw [inUse?_tableFor, h.requestKey, if_neg hkey] at hsome'
    obtain ⟨hne, hassigned⟩ := h.spare key id' hnone hsome'
    constructor
    · intro id hid
      rcases eq_or_lt_of_lt_tableFor hnew hid with rfl | hlt
      · -- a table serves one request only
        rw [hself]
        intro hsame
        refine hkey ((h.consistent'.tableFor scheme group).injective key _ id' hsome ?_)
        rw [inUse?_tableFor, h.requestKey, if_pos rfl, hsame]
      · rw [hold id hlt]
        exact hne id hlt
    · rw [table_tableFor scheme group (h.consistent'.bounds key id' hsome'), hassigned]

/-- A request on both sides gets the same table, up to its number. Those that were there keep their
numbers. -/
theorem Embeds.tableFor (h : Embeds f s s') (scheme group : Option String) :
    ∃ g, (∀ id < s.tables.size, g id = f id) ∧
      (s'.tableFor scheme group).1 = g (s.tableFor scheme group).1 ∧
      Embeds g (s.tableFor scheme group).2 (s'.tableFor scheme group).2 := by
  cases hnew : s.inUse? (s.requestKey scheme group) with
  | some id =>
    have hkey := h.inUse _ id hnew
    rw [← h.requestKey] at hkey
    rw [tableFor_of_inUse hnew, tableFor_of_inUse hkey]
    exact ⟨f, fun _ _ => rfl, rfl, h⟩
  | none =>
    have hself : Function.update f s.tables.size (s'.tableFor scheme group).1 s.tables.size
        = (s'.tableFor scheme group).1 := Function.update_self ..
    have hold : ∀ id < s.tables.size,
        Function.update f s.tables.size (s'.tableFor scheme group).1 id = f id :=
      fun id hid => Function.update_of_ne (Nat.ne_of_lt hid) ..
    refine ⟨_, hold, ?_, h.tableFor_extend hnew hself hold⟩
    rw [SharedTables.tableFor_of_new hnew, hself]

/-! ## Steps and resets on both sides -/

/-- A step on a table that is there on both sides answers alike, and keeps the tables the same. -/
theorem Embeds.update {β : Type} (h : Embeds f s s') {id : Nat} (hid : id < s.tables.size)
    {step : ColorTable → β × ColorTable} (hstep : ∀ t, (step t).2.palette = t.palette) :
    (s'.update (f id) step).1 = (s.update id step).1 ∧
      Embeds f (s.update id step).2 (s'.update (f id) step).2 := by
  have hlt : f id < s'.tables.size := h.lt id hid
  refine ⟨?_, h.consistent.update id hstep, h.consistent'.update (f id) hstep, h.schemes, ?_, ?_, ?_,
    h.inUse, ?_⟩
  · show (step (s'.table (f id))).1 = (step (s.table id)).1
    rw [h.table id hid]
  · intro k hk
    rw [size_update] at hk ⊢
    exact h.lt k hk
  · intro k hk k' hk'
    rw [size_update] at hk hk'
    exact h.inj k hk k' hk'
  · intro k hk
    rw [size_update] at hk
    rw [table_update, table_update, h.table k hk, h.table id hid]
    by_cases hsame : k = id
    · subst hsame
      rw [if_pos ⟨rfl, hlt⟩, if_pos ⟨rfl, hid⟩]
    · rw [if_neg (fun hboth => hsame (h.inj k hk id hid hboth.1)), if_neg (fun hboth => hsame hboth.1)]
  · intro key id' hnone hsome
    obtain ⟨hne, hassigned⟩ := h.spare key id' hnone hsome
    refine ⟨?_, ?_⟩
    · intro k hk
      rw [size_update] at hk
      exact hne k hk
    · rw [table_update, if_neg (fun hboth => hne id hid hboth.1.symm), hassigned]

/-- A table that is requested and changed on both sides is the same table again. -/
theorem Embeds.changeFor (h : Embeds f s s') (scheme group : Option String)
    {change : ColorTable → ColorTable} (hchange : ∀ t, (change t).palette = t.palette) :
    ∃ g, (∀ id < s.tables.size, g id = f id) ∧
      (s'.tableFor scheme group).1 = g (s.tableFor scheme group).1 ∧
      Embeds g (s.changeFor scheme group change) (s'.changeFor scheme group change) := by
  obtain ⟨g, hold, hnumber, htables⟩ := h.tableFor scheme group
  have hlt := h.consistent.tableFor_lt scheme group
  have hstep : ∀ t, (((), change t) : Unit × ColorTable).2.palette = t.palette := hchange
  have hupdate := htables.update hlt hstep
  rw [← hnumber] at hupdate
  exact ⟨g, hold, hnumber, hupdate.2⟩

/-- After a reset nothing is in use on either side. -/
theorem Embeds.reset (h : Embeds f s s') : Embeds f s.reset s'.reset where
  consistent := Consistent.reset s
  consistent' := Consistent.reset s'
  schemes := h.schemes
  lt := h.lt
  inj := h.inj
  table := h.table
  inUse _ _ hid := nomatch hid
  spare _ _ _ hid := nomatch hid

end VisualEncoding.SharedTables
