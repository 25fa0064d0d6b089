import VisualEncoding.Proofs.Session.Run

/-!
# Equal values have equal colors

Two scales that request the same table color a value alike, even if many scales are made and many values
are mapped in between. What is asked for in between cannot change a color that was given out. What can
is a step that gives the key a color on purpose (`SessionStep.given?`): a scale that is made on the same
table with the key in its domain, or a pin. The last of these wins:

> `lookUp_of_equal_keys`: the second of two look-ups has the color that the key was last given in between,
> or else the color of the first.

The invariant is that the key is settled on the table in use (`settled?_next` for a step, `settled?_after`
for a run).
-/

namespace VisualEncoding

variable {α : Type} [Scalar α]

namespace SessionStep

/-- The color that a step gives to a key in the table of a request, whatever color the key had before. -/
def given? (schemes : SchemeRegistry) (request : String × String) (key : String) :
    SessionStep α → Option String
  | .create c =>
    if c.sharesColors ∧ c.colorRequest schemes = request then
      c.categories?.toOption.bind fun domain =>
        ColorTable.paletteColor? ((schemes.categorical? request.1).getD []) domain key
    else none
  | .pin scheme group v color =>
    if SharedTables.requestKey { schemes } scheme group = request ∧ v.key = key then some color else none
  | .lookUp _ _ | .reset => none

/-- The color that a key was last given by a list of steps, if any of them gives it one. -/
def lastGiven? (schemes : SchemeRegistry) (request : String × String) (key : String) :
    List (SessionStep α) → Option String
  | [] => none
  | step :: steps =>
    (lastGiven? schemes request key steps).or (given? schemes request key step)

variable {schemes : SchemeRegistry} {request : String × String} {key : String}
  {c : CompleteScaleConfig α}

theorem lastGiven?_cons (step : SessionStep α) (steps : List (SessionStep α)) :
    lastGiven? schemes request key (step :: steps)
      = (lastGiven? schemes request key steps).or (given? schemes request key step) :=
  rfl

/-- A scale that is made on the table gives the key the color of its place in the domain. -/
theorem given?_create {domain : Categories α} (hshares : c.sharesColors = true)
    (hrequest : c.colorRequest schemes = request) (hdomain : c.categories? = .ok domain) :
    given? schemes request key (.create c)
      = ColorTable.paletteColor? ((schemes.categorical? request.1).getD []) domain key := by
  unfold given?
  dsimp only
  rw [if_pos ⟨hshares, hrequest⟩, hdomain]
  rfl

/-- A scale on another table gives nothing. -/
theorem given?_create_of_ne (hrequest : c.colorRequest schemes ≠ request) :
    given? schemes request key (.create c) = none :=
  if_neg fun h => hrequest h.2

/-- A config that does not become a scale on a table gives nothing. -/
theorem given?_create_of_error (h : c.sharesColors = true → ∃ p, c.categories? = .error p) :
    given? schemes request key (.create c) = none := by
  unfold given?
  dsimp only
  by_cases hshares : c.sharesColors = true ∧ c.colorRequest schemes = request
  · obtain ⟨p, hp⟩ := h hshares.1
    rw [if_pos hshares, hp]
    rfl
  · rw [if_neg hshares]

end SessionStep

namespace SessionRun

open SessionStep

variable {r : SessionRun α} {request : String × String} {id : Nat} {key color : String}

/-! ## Settled colors along a run -/

/-- A step leaves a settled key of a table in use settled, on the color that it gives or else on the color
before. -/
theorem settled?_next {step : SessionStep α} (hstep : step ≠ .reset) (hr : r.colors.Consistent)
    (hid : r.colors.inUse? request = some id) (h : (r.colors.table id).settled? key = some color) :
    ((r.next step).colors.table id).settled? key
      = some ((given? r.colors.schemes request key step).getD color) := by
  cases step with
  | create c =>
    rcases colors_next_create r c with ⟨domain, hshares, hdomain, hcolors, -⟩ | ⟨herror, hcolors, -⟩
    · rw [hcolors, SharedTables.table_changeFor hr _ _ _ hid]
      by_cases hrequest : request = r.colors.requestKey (c.setting .scheme) (c.setting .colorGroup)
      · rw [if_pos hrequest, ColorTable.settled?_preassign, h, hr.palette request id hid,
          given?_create hshares hrequest.symm hdomain, Option.or_some]
      · rw [if_neg hrequest, h, given?_create_of_ne fun hsame => hrequest hsame.symm]
        rfl
    · have htable := c.table_requested r.session (hr.bounds request id hid)
      rw [hcolors, htable, given?_create_of_error herror]
      exact h
  | lookUp scale v =>
    rcases colors_next_lookUp r scale v with hcolors | ⟨id', hcolors⟩
    · rw [hcolors, h]
      rfl
    · -- look-ups on the same table keep what is settled, those on another do not matter
      rw [hcolors, SharedTables.table_update]
      by_cases hsame : id = id' ∧ id' < r.colors.tables.size
      · rw [if_pos hsame]
        exact ColorTable.settled?_valueFor_of_settled v (hsame.1 ▸ h)
      · rw [if_neg hsame, h]
        rfl
  | pin scheme group v color' =>
    rw [colors_next_pin, SharedTables.table_changeFor hr _ _ _ hid]
    unfold given?
    dsimp only
    by_cases hrequest : request = r.colors.requestKey scheme group
    · rw [if_pos hrequest, ColorTable.settled?_setColor, h]
      by_cases hkey : key = v.key
      · rw [if_pos hkey, if_pos ⟨hrequest.symm, hkey.symm⟩]
        rfl
      · rw [if_neg hkey, if_neg fun hgiven => hkey hgiven.2.symm]
        rfl
    · rw [if_neg hrequest, h, if_neg fun hgiven => hrequest hgiven.1.symm]
      rfl
  | reset => exact absurd rfl hstep

/-- A run leaves a settled key settled, on the color that it was last given or else on the color before. -/
theorem settled?_after {steps : List (SessionStep α)} (hsteps : SessionStep.reset ∉ steps)
    (hr : r.colors.Consistent) (hid : r.colors.inUse? request = some id)
    (h : (r.colors.table id).settled? key = some color) :
    ((r.after steps).colors.table id).settled? key
      = some ((lastGiven? r.colors.schemes request key steps).getD color) := by
  induction steps generalizing r color with
  | nil => exact h
  | cons step steps ih =>
    rw [List.mem_cons, not_or] at hsteps
    have hstep : step ≠ .reset := Ne.symm hsteps.1
    have hafter := ih hsteps.2 (consistent_next hr step) (inUse?_next hstep hid)
      (settled?_next hstep hr hid h)
    rw [schemes_next] at hafter
    refine hafter.trans (congrArg some ?_)
    rw [lastGiven?_cons, Option.getD_or]

/-! ## Two look-ups -/

variable {i : Nat} {c : CompleteScaleConfig α} {domain : Categories α} {v : Value α}

/-- A scale on a shared table answers with the color of the key in it. -/
theorem lookUp_of_made (hi : r.made[i]? = some (c, .colors id domain)) (hv : v.isNull = false) :
    (r.lookUp i v).1 = .string ((r.colors.table id).colorOfKey v.key).1 := by
  unfold lookUp
  rw [hi]
  show ((r.colors.table id).valueFor v).1 = _
  rw [ColorTable.valueFor_of_not_isNull hv]

/-- What a scale on a shared table was asked for is settled on the answer. -/
theorem settled?_lookUp (hi : r.made[i]? = some (c, .colors id domain)) (hv : v.isNull = false)
    (hlt : id < r.colors.tables.size) :
    ((r.next (.lookUp i v)).colors.table id).settled? v.key
      = some ((r.colors.table id).colorOfKey v.key).1 := by
  have hcolors : (r.next (.lookUp i v)).colors = (r.colors.update id fun t => t.valueFor v).2 := by
    show (r.lookUp i v).2.colors = _
    unfold lookUp
    rw [hi]
    rfl
  rw [hcolors, SharedTables.table_update, if_pos ⟨rfl, hlt⟩, ColorTable.valueFor_of_not_isNull hv,
    ColorTable.settled?_colorOfKey, if_pos rfl]

/-- **Equal values have equal colors.** In a session with any past, two scales are made whose configs
request the same table, and two values with the same key are mapped by them. The second has the color
that its key was last given on that table in between, or else the color of the first. -/
theorem lookUp_of_equal_keys (schemes : SchemeRegistry) (past before between : List (SessionStep α))
    (hbefore : SessionStep.reset ∉ before) (hbetween : SessionStep.reset ∉ between)
    {r r' : SessionRun α} (hr : r = (((start schemes).after past).forgetScales).after before)
    {i j : Nat} {v v' : Value α} (hr' : r' = (r.next (.lookUp i v)).after between)
    {c c' : CompleteScaleConfig α} {s s' : Scale α}
    (hi : r.made[i]? = some (c, s)) (hj : r'.made[j]? = some (c', s'))
    (hc : c.sharesColors = true) (hc' : c'.sharesColors = true)
    (hrequest : c.colorRequest schemes = c'.colorRequest schemes)
    (hv : v.isNull = false) (hv' : v'.isNull = false) (hkey : v.key = v'.key) :
    ∃ color, (r.lookUp i v).1 = .string color ∧ (r'.lookUp j v').1
      = .string ((lastGiven? schemes (c.colorRequest schemes) v.key between).getD color) := by
  have hlookUp : SessionStep.lookUp i v ≠ .reset := nofun
  -- the tables are consistent and the scales are on the tables in use, all along
  have hconsistent : r.colors.Consistent := by
    rw [hr]
    exact consistent_after (r := forgetScales _) (consistent_after (consistent_start schemes) past) before
  have hmade : r.MadeInUse := by
    rw [hr]
    exact madeInUse_after hbefore (madeInUse_forgetScales _)
  have hmade' : r'.MadeInUse := by
    rw [hr']
    exact madeInUse_after hbetween (madeInUse_next hlookUp hmade)
  have hschemes : r.colors.schemes = schemes := by
    rw [hr, schemes_after]
    exact schemes_after (start schemes) past
  have hschemes' : r'.colors.schemes = schemes := by
    rw [hr', schemes_after, schemes_next, hschemes]
  -- so both scales are on one table
  obtain ⟨id, domain, rfl, hid⟩ := hmade c s (List.mem_of_getElem? hi) hc
  obtain ⟨id', domain', rfl, hid'⟩ := hmade' c' s' (List.mem_of_getElem? hj) hc'
  rw [hschemes] at hid
  rw [hschemes', ← hrequest] at hid'
  have hsame : r'.colors.inUse? (c.colorRequest schemes) = some id := by
    rw [hr']
    exact inUse?_after hbetween (inUse?_next hlookUp hid)
  cases hsame.symm.trans hid'
  -- and the key stays settled there from the first look-up on
  have hsettled := settled?_after hbetween (consistent_next hconsistent (.lookUp i v))
    (inUse?_next hlookUp hid) (settled?_lookUp hi hv (hconsistent.bounds _ _ hid))
  rw [← hr', schemes_next, hschemes] at hsettled
  refine ⟨_, lookUp_of_made hi hv, ?_⟩
  rw [lookUp_of_made hj hv', ← hkey, ColorTable.colorOfKey_of_settled hsettled]

/-- Colors of the default scheme for whatever is asked for. -/
def anyColors : CompleteScaleConfig Float where
  family := .ordinal

/-- Colors of the default scheme for a domain of two. -/
def colorsOfTwo : CompleteScaleConfig Float where
  family := .ordinal
  options := ScaleOptions.empty.set .domain (some [.value (.string "x"), .value (.string "y")])

/-- A fresh session with one scale. -/
def withAnyColors : SessionRun Float := (start {}).after [.create anyColors]

/-- The session after a value was asked for, and then another value and a second scale. -/
def withTwoScales : SessionRun Float :=
  (withAnyColors.next (.lookUp 0 (.string "y"))).after [.lookUp 0 (.string "x"), .create anyColors]

/-- The second scale colors the value like the first. -/
theorem lookUp_of_equal_keys_anyColors :
    ∃ color, (withAnyColors.lookUp 0 (.string "y")).1 = .string color ∧
      (withTwoScales.lookUp 1 (.string "y")).1 = .string color := by
  have hi : withAnyColors.made[0]? = some (anyColors, .colors 0 .empty) := rfl
  have hj : withTwoScales.made[1]? = some (anyColors, .colors 0 .empty) := rfl
  have hv : (Value.string "y" : Value Float).isNull = false := rfl
  exact lookUp_of_equal_keys {} [] [.create anyColors] [.lookUp 0 (.string "x"), .create anyColors]
    nofun nofun rfl rfl hi hj rfl rfl rfl hv hv rfl

/-- A scale that is made with the value in its domain changes the color of the value. -/
theorem lookUp_changes_of_domain :
    (withAnyColors.lookUp 0 (.string "y")).1 = .string "#4e79a7" ∧
      (((withAnyColors.next (.lookUp 0 (.string "y"))).after [.create colorsOfTwo]).lookUp 0
        (.string "y")).1 = .string "#f28e2b" :=
  ⟨rfl, rfl⟩

end SessionRun

end VisualEncoding
