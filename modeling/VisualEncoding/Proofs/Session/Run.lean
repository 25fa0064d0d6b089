import VisualEncoding.Proofs.Color.SharedTables
import VisualEncoding.Proofs.Scale.Realization

/-!
# Runs of a session

A program makes scales in a session, maps values by them, pins colors and resets the color tables, in any
order. `SessionRun.next` is one such step and `SessionRun.after` a whole run.

A step touches the color tables in one of few ways (`colors_next_create`, `colors_next_lookUp`), and what
holds of the tables through every run is shown for these:

> `consistent_after`: the tables in use are consistent after any run.
> `madeInUse_after`: without a reset, a scale made from a config with a shared table is on the table that
> is in use for the config.
-/

namespace VisualEncoding

/-- What a program does with a session. -/
inductive SessionStep (α : Type) where
  /-- Makes a scale of a config. -/
  | create (c : CompleteScaleConfig α)
  /-- Maps a value by one of the scales that were made. -/
  | lookUp (scale : Nat) (v : Value α)
  /-- Pins a value to a color in the table for a scheme and group. -/
  | pin (scheme group : Option String) (v : Value α) (color : String)
  | reset

/-- A session and the scales that were made in it, in the order of their making, with their configs. -/
structure SessionRun (α : Type) [Scalar α] where
  session : Session α
  made : List (CompleteScaleConfig α × Scale α) := []

namespace SessionRun

variable {α : Type} [Scalar α]

/-! ## Steps -/

/-- The color tables. -/
def colors (r : SessionRun α) : SharedTables := r.session.colors

/-- The value that a scale maps a value to, and the session after that. There is no answer by a scale
that was not made. -/
def lookUp (r : SessionRun α) (scale : Nat) (v : Value α) : Value α × Session α :=
  match r.made[scale]? with
  | some (_, s) => (s.apply v).run r.session
  | none => (.null, r.session)

/-- Does a step. A config that does not become a scale adds none. -/
def next (r : SessionRun α) : SessionStep α → SessionRun α
  | .create c =>
    match c.realize.run.run r.session with
    | (.ok s, session) => { session, made := r.made ++ [(c, s)] }
    | (.error _, session) => { r with session }
  | .lookUp scale v => { r with session := (r.lookUp scale v).2 }
  | .pin scheme group v color =>
    { r with session := { r.session with
        colors := r.session.colors.changeFor scheme group fun t => t.setColor v color } }
  | .reset => { r with session := { r.session with colors := r.session.colors.reset } }

/-- Does steps one after the other. -/
def after (r : SessionRun α) (steps : List (SessionStep α)) : SessionRun α := steps.foldl next r

/-- A session with the schemes that are known and nothing else. -/
def start (schemes : SchemeRegistry) : SessionRun α := { session := .ofSchemes schemes }

/-- The run with its session as it is and without its scales. -/
def forgetScales (r : SessionRun α) : SessionRun α := { session := r.session }

variable {r : SessionRun α} {c : CompleteScaleConfig α}

/-! ## What a step does to the tables -/

/-- Making a scale gives the categories of its config their colors, if the config shares a table and its
domain can be read; else it does no more to the tables than requesting one. -/
theorem colors_next_create (r : SessionRun α) (c : CompleteScaleConfig α) :
    (∃ domain, c.sharesColors = true ∧ c.categories? = .ok domain ∧
      (r.next (.create c)).colors
        = r.colors.changeFor (c.setting .scheme) (c.setting .colorGroup) (fun t => t.preassign domain) ∧
      (r.next (.create c)).made
        = r.made ++ [(c, .colors
            (r.colors.tableFor (c.setting .scheme) (c.setting .colorGroup)).1 domain)]) ∨
    ((c.sharesColors = true → ∃ p, c.categories? = .error p) ∧
      (r.next (.create c)).colors = (c.requested r.session).colors ∧
      ((r.next (.create c)).made = r.made ∨
        ∃ s, c.sharesColors = false ∧ (r.next (.create c)).made = r.made ++ [(c, s)])) := by
  cases hshares : c.sharesColors with
  | true =>
    cases hdomain : c.categories? with
    | ok domain =>
      have hnext : r.next (.create c) =
          { session := { r.session with
              colors := r.colors.changeFor (c.setting .scheme) (c.setting .colorGroup) fun t =>
                t.preassign domain }
            made := r.made ++ [(c, .colors
              (r.colors.tableFor (c.setting .scheme) (c.setting .colorGroup)).1 domain)] } := by
        unfold next
        dsimp only
        rw [CompleteScaleConfig.realize_of_sharesColors hshares hdomain]
        rfl
      rw [hnext]
      exact Or.inl ⟨domain, rfl, rfl, rfl, rfl⟩
    | error p =>
      -- without categories there is no plan, and the session stays as it is after the request
      have hnext : r.next (.create c) = { r with session := c.requested r.session } := by
        unfold next
        dsimp only
        rw [CompleteScaleConfig.realize_of_error (p := p)]
        rw [CompleteScaleConfig.plan_of_sharesColors _ hshares, hdomain]
        rfl
      rw [hnext]
      exact Or.inr ⟨fun _ => ⟨p, rfl⟩, rfl, Or.inl rfl⟩
  | false =>
    have hcolors := CompleteScaleConfig.colors_realize_of_not_sharesColors hshares r.session
    refine Or.inr ⟨fun h => (nomatch h), ?_⟩
    rw [CompleteScaleConfig.requested_of_not_sharesColors hshares]
    unfold next
    dsimp only
    generalize c.realize.run.run r.session = result at hcolors ⊢
    obtain ⟨outcome, session⟩ := result
    cases outcome with
    | ok s => exact ⟨hcolors, Or.inr ⟨s, rfl, rfl⟩⟩
    | error p => exact ⟨hcolors, Or.inl rfl⟩

/-- A look-up asks a table for a value or does not touch the tables. -/
theorem colors_next_lookUp (r : SessionRun α) (scale : Nat) (v : Value α) :
    (r.next (.lookUp scale v)).colors = r.colors ∨
      ∃ id, (r.next (.lookUp scale v)).colors = (r.colors.update id fun t => t.valueFor v).2 := by
  show (r.lookUp scale v).2.colors = _ ∨ ∃ id, (r.lookUp scale v).2.colors = _
  unfold lookUp
  cases r.made[scale]? with
  | none => exact Or.inl rfl
  | some entry =>
    obtain ⟨c, s⟩ := entry
    cases s with
    | colors id domain => exact Or.inr ⟨id, rfl⟩
    | _ => exact Or.inl rfl

/-- A pin changes the table that it is for. -/
theorem colors_next_pin (r : SessionRun α) (scheme group : Option String) (v : Value α)
    (color : String) :
    (r.next (.pin scheme group v color)).colors
      = r.colors.changeFor scheme group fun t => t.setColor v color :=
  rfl

/-! ## What every step keeps -/

/-- The known schemes stay the same. -/
theorem schemes_next (r : SessionRun α) (step : SessionStep α) :
    (r.next step).colors.schemes = r.colors.schemes := by
  cases step with
  | create c =>
    rcases colors_next_create r c with ⟨domain, -, -, hcolors, -⟩ | ⟨-, hcolors, -⟩
    · rw [hcolors, SharedTables.schemes_changeFor]
    · rw [hcolors]
      exact c.schemes_requested r.session
  | lookUp scale v =>
    rcases colors_next_lookUp r scale v with hcolors | ⟨id, hcolors⟩
    · rw [hcolors]
    · rw [hcolors]
      rfl
  | pin scheme group v color => rw [colors_next_pin, SharedTables.schemes_changeFor]
  | reset => rfl

theorem schemes_after (r : SessionRun α) (steps : List (SessionStep α)) :
    (r.after steps).colors.schemes = r.colors.schemes := by
  induction steps generalizing r with
  | nil => rfl
  | cons step steps ih => exact (ih (r.next step)).trans (schemes_next r step)

/-- Every step keeps the tables in use consistent. -/
theorem consistent_next (h : r.colors.Consistent) (step : SessionStep α) :
    (r.next step).colors.Consistent := by
  cases step with
  | create c =>
    rcases colors_next_create r c with ⟨domain, -, -, hcolors, -⟩ | ⟨-, hcolors, -⟩
    · rw [hcolors]
      exact h.changeFor _ _ fun t => t.palette_preassign domain
    · rw [hcolors]
      exact c.consistent_requested h
  | lookUp scale v =>
    rcases colors_next_lookUp r scale v with hcolors | ⟨id, hcolors⟩
    · rw [hcolors]
      exact h
    · rw [hcolors]
      exact h.update id fun t => t.palette_valueFor v
  | pin scheme group v color =>
    rw [colors_next_pin]
    exact h.changeFor scheme group fun _ => rfl
  | reset => exact SharedTables.Consistent.reset _

theorem consistent_after (h : r.colors.Consistent) (steps : List (SessionStep α)) :
    (r.after steps).colors.Consistent := by
  induction steps generalizing r with
  | nil => exact h
  | cons step steps ih => exact ih (consistent_next h step)

theorem consistent_start (schemes : SchemeRegistry) :
    (start schemes : SessionRun α).colors.Consistent :=
  SharedTables.consistent_of_schemes schemes

/-! ## What stays in use until a reset -/

variable {request : String × String} {id : Nat}

/-- Only a reset takes a table out of use. -/
theorem inUse?_next {step : SessionStep α} (hstep : step ≠ .reset)
    (h : r.colors.inUse? request = some id) : (r.next step).colors.inUse? request = some id := by
  cases step with
  | create c =>
    rcases colors_next_create r c with ⟨domain, -, -, hcolors, -⟩ | ⟨-, hcolors, -⟩
    · rw [hcolors]
      exact SharedTables.inUse?_changeFor_of_inUse _ _ _ h
    · rw [hcolors]
      exact c.inUse?_requested h
  | lookUp scale v =>
    rcases colors_next_lookUp r scale v with hcolors | ⟨id, hcolors⟩
    · rw [hcolors]
      exact h
    · rw [hcolors]
      exact h
  | pin scheme group v color =>
    rw [colors_next_pin]
    exact SharedTables.inUse?_changeFor_of_inUse scheme group _ h
  | reset => exact absurd rfl hstep

theorem inUse?_after {steps : List (SessionStep α)} (hsteps : SessionStep.reset ∉ steps)
    (h : r.colors.inUse? request = some id) : (r.after steps).colors.inUse? request = some id := by
  induction steps generalizing r with
  | nil => exact h
  | cons step steps ih =>
    rw [List.mem_cons, not_or] at hsteps
    exact ih hsteps.2 (inUse?_next (Ne.symm hsteps.1) h)

/-- The scales that share a table are on the one that is in use for their config. -/
def MadeInUse (r : SessionRun α) : Prop :=
  ∀ c s, (c, s) ∈ r.made → c.sharesColors = true →
    ∃ id domain, s = .colors id domain ∧ r.colors.inUse? (c.colorRequest r.colors.schemes) = some id

theorem madeInUse_forgetScales (r : SessionRun α) : r.forgetScales.MadeInUse :=
  fun _ _ hmem _ => nomatch hmem

/-- The scales that were there before a step are on the tables that are in use after it. -/
theorem inUse?_next_of_made {step : SessionStep α} (hstep : step ≠ .reset) (h : r.MadeInUse)
    {s : Scale α} (hmem : (c, s) ∈ r.made) (hshares : c.sharesColors = true) :
    ∃ id domain, s = .colors id domain ∧
      (r.next step).colors.inUse? (c.colorRequest (r.next step).colors.schemes) = some id := by
  obtain ⟨id, domain, hs, hid⟩ := h c s hmem hshares
  refine ⟨id, domain, hs, ?_⟩
  rw [schemes_next]
  exact inUse?_next hstep hid

/-- A step other than a reset keeps the scales on the tables in use. -/
theorem madeInUse_next {step : SessionStep α} (hstep : step ≠ .reset) (h : r.MadeInUse) :
    (r.next step).MadeInUse := by
  intro c s hmem hshares
  cases step with
  | create c' =>
    rcases colors_next_create r c' with ⟨domain, -, -, hcolors, hmade⟩ | ⟨-, -, hmade | ⟨s', hno, hmade⟩⟩
    · rw [hmade, List.mem_append, List.mem_singleton] at hmem
      rcases hmem with hold | hnew
      · exact inUse?_next_of_made hstep h hold hshares
      · -- the new scale is on the table that it has requested
        cases hnew
        refine ⟨_, domain, rfl, ?_⟩
        rw [schemes_next, hcolors]
        exact SharedTables.inUse?_changeFor r.colors _ _ _
    · rw [hmade] at hmem
      exact inUse?_next_of_made hstep h hmem hshares
    · rw [hmade, List.mem_append, List.mem_singleton] at hmem
      rcases hmem with hold | hnew
      · exact inUse?_next_of_made hstep h hold hshares
      · cases hnew
        exact nomatch hno.symm.trans hshares
  | lookUp scale v => exact inUse?_next_of_made hstep h hmem hshares
  | pin scheme group v color => exact inUse?_next_of_made hstep h hmem hshares
  | reset => exact absurd rfl hstep

theorem madeInUse_after {steps : List (SessionStep α)} (hsteps : SessionStep.reset ∉ steps)
    (h : r.MadeInUse) : (r.after steps).MadeInUse := by
  induction steps generalizing r with
  | nil => exact h
  | cons step steps ih =>
    rw [List.mem_cons, not_or] at hsteps
    exact ih hsteps.2 (madeInUse_next (Ne.symm hsteps.1) h)

end SessionRun

end VisualEncoding
