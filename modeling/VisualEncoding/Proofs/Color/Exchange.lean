import VisualEncoding.Proofs.Color.Renumbering

/-!
# Changes in either order

Two requests for tables, each with a change to the table that it gets, can be exchanged. If they are about the
same scheme and group this needs the changes to be the same (`changeFor_comm_of_same`). Else they are about
different tables, and what comes of them is the same up to the numbers of the tables, which are made in another
order (`changeFor_exchange`).

> `changeFor_comm_of_inUse`: if one of the tables is there already, the numbers are the same as well.
-/

namespace VisualEncoding.SharedTables

variable {s : SharedTables} {scheme group scheme' group' : Option String}

/-- What a request gets depends on the scheme and the group that it comes to. -/
theorem tableFor_congr (h : s.requestKey scheme group = s.requestKey scheme' group') :
    s.tableFor scheme group = s.tableFor scheme' group' := by
  have hpalette : s.schemes.palette scheme = s.schemes.palette scheme' := by
    unfold SchemeRegistry.palette
    rw [show s.schemes.resolve scheme = s.schemes.resolve scheme' from congrArg Prod.fst h]
  unfold tableFor
  rw [h, hpalette]

theorem changeFor_comm_of_same (h : s.requestKey scheme group = s.requestKey scheme' group')
    (change : ColorTable → ColorTable) :
    (s.changeFor scheme group change).changeFor scheme' group' change
      = (s.changeFor scheme' group' change).changeFor scheme group change := by
  have hafter : (s.changeFor scheme group change).requestKey scheme group
      = (s.changeFor scheme group change).requestKey scheme' group' := by
    unfold requestKey at h ⊢
    rw [schemes_changeFor]
    exact h
  have hsame : s.changeFor scheme' group' change = s.changeFor scheme group change := by
    unfold changeFor
    rw [tableFor_congr h]
  rw [hsame]
  unfold changeFor at hafter ⊢
  rw [tableFor_congr hafter]

/-- A table that was changed is requested again under the same number. -/
theorem tableFor_changeFor_of_same (h : s.requestKey scheme group = s.requestKey scheme' group')
    (change : ColorTable → ColorTable) :
    ((s.changeFor scheme group change).tableFor scheme' group').1 = (s.tableFor scheme' group').1 := by
  have hinUse := inUse?_changeFor s scheme group change
  rw [h, tableFor_congr h, ← requestKey_tableFor s scheme group scheme' group'] at hinUse
  rw [tableFor_of_inUse hinUse]

/-! ## Updates -/

/-- Updates of different tables can be exchanged. -/
theorem update_comm {id id' : Nat} (h : id ≠ id') (s : SharedTables) (change change' : ColorTable → ColorTable) :
    ((s.update id fun t => ((), change t)).2.update id' fun t => ((), change' t)).2
      = ((s.update id' fun t => ((), change' t)).2.update id fun t => ((), change t)).2 := by
  have htable : (s.update id fun t => ((), change t)).2.table id' = s.table id' := by
    rw [table_update, if_neg (fun hboth => h hboth.1.symm)]
  have htable' : (s.update id' fun t => ((), change' t)).2.table id = s.table id := by
    rw [table_update, if_neg (fun hboth => h hboth.1)]
  show SharedTables.mk _ ((s.tables.setIfInBounds id (change (s.table id))).setIfInBounds id'
      (change' ((s.update id fun t => ((), change t)).2.table id'))) _
    = SharedTables.mk _ ((s.tables.setIfInBounds id' (change' (s.table id'))).setIfInBounds id
      (change ((s.update id' fun t => ((), change' t)).2.table id))) _
  rw [htable, htable', Array.setIfInBounds_comm _ _ h]
  rfl

theorem push_setIfInBounds {β : Type} (xs : Array β) {i : Nat} (hi : i < xs.size) (x y : β) :
    (xs.setIfInBounds i x).push y = (xs.push y).setIfInBounds i x := by
  have hi' : i < (xs.push y).size := by
    rw [Array.size_push]
    exact Nat.lt_succ_of_lt hi
  rw [Array.setIfInBounds_def, Array.setIfInBounds_def, dif_pos hi, dif_pos hi', Array.set_push, dif_pos hi]

/-- An update of a table that is there does not matter to a request. -/
theorem tableFor_update {id : Nat} (hid : id < s.tables.size) (scheme group : Option String)
    (change : ColorTable → ColorTable) :
    (s.update id fun t => ((), change t)).2.tableFor scheme group
      = ((s.tableFor scheme group).1, ((s.tableFor scheme group).2.update id fun t => ((), change t)).2) := by
  cases hkey : s.inUse? (s.requestKey scheme group) with
  | some id' =>
    have hkey' : (s.update id fun t => ((), change t)).2.inUse?
        ((s.update id fun t => ((), change t)).2.requestKey scheme group) = some id' := hkey
    rw [tableFor_of_inUse hkey, tableFor_of_inUse hkey']
  | none =>
    have hkey' : (s.update id fun t => ((), change t)).2.inUse?
        ((s.update id fun t => ((), change t)).2.requestKey scheme group) = none := hkey
    have htable := table_tableFor (s := s) scheme group hid
    have hsize := size_update s id fun t => ((), change t)
    rw [tableFor_of_new hkey']
    rw [tableFor_of_new hkey] at htable ⊢
    rw [hsize]
    refine congrArg (Prod.mk _) ?_
    show SharedTables.mk s.schemes ((s.tables.setIfInBounds id (change (s.table id))).push _) _
      = SharedTables.mk s.schemes ((s.tables.push _).setIfInBounds id (change (SharedTables.table _ id))) _
    rw [htable, push_setIfInBounds s.tables hid]
    rfl

/-! ## Changes -/

/-- A change for a request is an update of the table that it gets. -/
theorem changeFor_eq (s : SharedTables) (scheme group : Option String) (change : ColorTable → ColorTable) :
    s.changeFor scheme group change
      = ((s.tableFor scheme group).2.update (s.tableFor scheme group).1 fun t => ((), change t)).2 :=
  rfl

/-- If the table of one request is in use, changes for it and for another request can be exchanged, and get the
tables with the same numbers. -/
theorem changeFor_comm_of_inUse {id : Nat} (h : s.Consistent)
    (hne : s.requestKey scheme group ≠ s.requestKey scheme' group')
    (hid : s.inUse? (s.requestKey scheme' group') = some id) (change change' : ColorTable → ColorTable) :
    (s.changeFor scheme group change).changeFor scheme' group' change'
        = (s.changeFor scheme' group' change').changeFor scheme group change ∧
      ((s.changeFor scheme' group' change').tableFor scheme group).1 = (s.tableFor scheme group).1 := by
  have hlt := h.bounds _ id hid
  have hid' : (s.tableFor scheme group).2.inUse? ((s.tableFor scheme group).2.requestKey scheme' group')
      = some id := by
    rw [requestKey_tableFor]
    exact inUse?_tableFor_of_inUse scheme group hid
  -- the other request gets another table
  have hnumbers : (s.tableFor scheme group).1 ≠ id := by
    rintro rfl
    refine hne ((h.tableFor scheme group).injective _ _ _ ?_ (inUse?_tableFor_of_inUse scheme group hid))
    rw [inUse?_tableFor, if_pos rfl]
  have hchanged : s.changeFor scheme' group' change' = (s.update id fun t => ((), change' t)).2 := by
    rw [changeFor_eq, tableFor_of_inUse hid]
  have hrequest := tableFor_update hlt scheme group change'
  refine ⟨?_, by rw [hchanged, hrequest]⟩
  have hid'' : (s.changeFor scheme group change).inUse?
      ((s.changeFor scheme group change).requestKey scheme' group') = some id := hid'
  calc (s.changeFor scheme group change).changeFor scheme' group' change'
      = ((s.changeFor scheme group change).update id fun t => ((), change' t)).2 := by
        rw [changeFor_eq _ scheme' group', tableFor_of_inUse hid'']
    _ = (((s.tableFor scheme group).2.update id fun t => ((), change' t)).2.update (s.tableFor scheme group).1
          fun t => ((), change t)).2 := update_comm hnumbers _ change change'
    _ = (s.changeFor scheme' group' change').changeFor scheme group change := by
        rw [hchanged, changeFor_eq _ scheme group, hrequest]

/-- **Changes for different requests can be exchanged**, up to the numbers of the tables. -/
theorem changeFor_exchange (h : s.Consistent)
    (hne : s.requestKey scheme group ≠ s.requestKey scheme' group') (change change' : ColorTable → ColorTable)
    (hchange : ∀ t, (change t).palette = t.palette) (hchange' : ∀ t, (change' t).palette = t.palette) :
    ∃ g : Nat → Nat, (∀ id < s.tables.size, g id = id) ∧
      ((s.changeFor scheme' group' change').tableFor scheme group).1 = g (s.tableFor scheme group).1 ∧
      (s.tableFor scheme' group').1 = g ((s.changeFor scheme group change).tableFor scheme' group').1 ∧
      Embeds g ((s.changeFor scheme group change).changeFor scheme' group' change')
        ((s.changeFor scheme' group' change').changeFor scheme group change) := by
  -- on the way from one side to the other the table of the second request is there from the start
  have hinUse : (s.tableFor scheme' group').2.inUse? ((s.tableFor scheme' group').2.requestKey scheme' group')
      = some (s.tableFor scheme' group').1 := by
    rw [requestKey_tableFor, inUse?_tableFor, if_pos rfl]
  have hne' : (s.tableFor scheme' group').2.requestKey scheme group
      ≠ (s.tableFor scheme' group').2.requestKey scheme' group' := by
    rw [requestKey_tableFor, requestKey_tableFor]
    exact hne
  obtain ⟨hcomm, hnumber⟩ := changeFor_comm_of_inUse (h.tableFor scheme' group') hne' hinUse change change'
  rw [changeFor_tableFor] at hcomm hnumber
  obtain ⟨g, hold, hfirst, htables⟩ :=
    (embeds_tableFor_right h scheme' group').changeFor scheme group hchange
  obtain ⟨g', hold', hsecond, htables'⟩ := htables.changeFor scheme' group' hchange'
  have hsize := size_changeFor s scheme group change
  refine ⟨g', fun id hid => ?_, ?_, ?_, hcomm ▸ htables'⟩
  · rw [hold' id (Nat.lt_of_lt_of_le hid (hsize ▸ s.size_le_tableFor scheme group)), hold id hid]
    rfl
  · rw [hnumber, hfirst, hold' _ (hsize ▸ h.tableFor_lt scheme group)]
  · rw [← hsecond]
    have hinUse' : ((s.tableFor scheme' group').2.changeFor scheme group change).inUse?
        (((s.tableFor scheme' group').2.changeFor scheme group change).requestKey scheme' group')
        = some (s.tableFor scheme' group').1 := by
      have hkept := inUse?_changeFor_of_inUse scheme group change hinUse
      unfold requestKey at hkept ⊢
      rw [schemes_changeFor]
      exact hkept
    rw [tableFor_of_inUse hinUse']

end VisualEncoding.SharedTables
