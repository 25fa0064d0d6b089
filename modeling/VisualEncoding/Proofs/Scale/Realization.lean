import VisualEncoding.Scale.Realization
import VisualEncoding.Proofs.Color.SharedTables
import VisualEncoding.Proofs.Outcome

/-!
# What a config becomes in a session

A session sees a config through its request for a color table, if it makes one, and then through its
plan alone: if there is none the session stays as it is after the request, and a plan is always put into
effect. What follows about scales in sessions starts from these two facts (`realize_of_plan`,
`realize_of_error`).
-/

namespace VisualEncoding

variable {α : Type} [Scalar α]

/-- The plan of a scale on a color table changes that table. -/
theorem ScalePlan.run_realize_colors (scheme group : Option String) (domain : Categories α)
    (session : Session α) :
    (ScalePlan.colors scheme group domain).realize.run session
      = (.colors (session.colors.tableFor scheme group).1 domain,
          { session with
            colors := session.colors.changeFor scheme group fun t => t.preassign domain }) :=
  rfl

namespace CompleteScaleConfig

/-! ## Plans by family -/

theorem plan_of_isContinuous {c : CompleteScaleConfig α} (schemes : SchemeRegistry)
    (hc : c.family.isContinuous = true) (hs : c.family ≠ .symlog) :
    c.plan schemes = (c.continuous schemes).map fun s => .alone (.continuous s) := by
  unfold plan
  cases hf : c.family with
  | symlog => exact absurd hf hs
  | linear | log | pow | sqrt | time | utc => rfl
  | _ => rw [hf] at hc; nomatch hc

theorem plan_of_symlog {c : CompleteScaleConfig α} (schemes : SchemeRegistry)
    (hf : c.family = .symlog) : c.plan schemes = .error (.missingFeature .symlog) := by
  unfold plan
  rw [hf]

theorem plan_of_quantize {c : CompleteScaleConfig α} (schemes : SchemeRegistry)
    (hf : c.family = .quantize) :
    c.plan schemes = (c.quantize schemes).map fun s => .alone (.quantize s) := by
  unfold plan
  rw [hf]
  rfl

theorem plan_of_threshold {c : CompleteScaleConfig α} (schemes : SchemeRegistry)
    (hf : c.family = .threshold) :
    c.plan schemes = (c.numericDomain? false).map fun domain? =>
      .alone (.threshold
        { thresholds := domain?.getD [1 / 2], range := c.groupRange schemes unitRange }) := by
  unfold plan
  rw [hf]
  rfl

theorem plan_of_isBanded {c : CompleteScaleConfig α} (schemes : SchemeRegistry)
    (hf : c.family.isBanded = true) : c.plan schemes = c.band.map fun s => .alone (.band s) := by
  unfold plan
  cases hfamily : c.family with
  | point | band => rfl
  | _ => rw [hfamily] at hf; nomatch hf

/-! ## Requests -/

variable {c : CompleteScaleConfig α} {session : Session α}

/-- The session after the table of a config has been requested. -/
def requested (c : CompleteScaleConfig α) (session : Session α) : Session α :=
  (c.requestTable.run session).2

theorem requested_of_not_sharesColors (h : c.sharesColors = false) : c.requested session = session := by
  unfold requested requestTable
  rw [if_neg (by rw [h]; exact Bool.false_ne_true)]
  rfl

theorem requested_of_sharesColors (h : c.sharesColors = true) :
    c.requested session
      = { session with
          colors := (session.colors.tableFor (c.setting .scheme) (c.setting .colorGroup)).2 } := by
  unfold requested requestTable
  rw [if_pos h]
  rfl

/-- The tables after a config has requested its own, if it does so at all. -/
theorem colors_requested (c : CompleteScaleConfig α) (session : Session α) :
    (c.requested session).colors = session.colors ∨
      (c.requested session).colors
        = (session.colors.tableFor (c.setting .scheme) (c.setting .colorGroup)).2 := by
  cases h : c.sharesColors with
  | true =>
    rw [requested_of_sharesColors h]
    exact Or.inr rfl
  | false =>
    rw [requested_of_not_sharesColors h]
    exact Or.inl rfl

theorem schemes_requested (c : CompleteScaleConfig α) (session : Session α) :
    (c.requested session).colors.schemes = session.colors.schemes := by
  rcases c.colors_requested session with h | h
  · rw [h]
  · rw [h, SharedTables.schemes_tableFor]

theorem consistent_requested (c : CompleteScaleConfig α) (h : session.colors.Consistent) :
    (c.requested session).colors.Consistent := by
  rcases c.colors_requested session with hcolors | hcolors
  · rw [hcolors]
    exact h
  · rw [hcolors]
    exact h.tableFor _ _

theorem inUse?_requested (c : CompleteScaleConfig α) {key : String × String} {id : Nat}
    (h : session.colors.inUse? key = some id) : (c.requested session).colors.inUse? key = some id := by
  rcases c.colors_requested session with hcolors | hcolors
  · rw [hcolors, h]
  · rw [hcolors]
    exact SharedTables.inUse?_tableFor_of_inUse _ _ h

/-- A request does not touch the tables that exist. -/
theorem table_requested (c : CompleteScaleConfig α) (session : Session α) {id : Nat}
    (h : id < session.colors.tables.size) :
    (c.requested session).colors.table id = session.colors.table id := by
  rcases c.colors_requested session with hcolors | hcolors
  · rw [hcolors]
  · rw [hcolors, SharedTables.table_tableFor _ _ h]

omit [Scalar α] in
/-- Only ordinal scales share a color table. -/
theorem not_sharesColors_of_family_ne (h : c.family ≠ .ordinal) : c.sharesColors = false := by
  unfold sharesColors
  rw [beq_false_of_ne h, Bool.false_and]

/-! ## Realizing a plan -/

/-- Realizing goes on from the plan, and from the session after the request. -/
theorem realize_run (c : CompleteScaleConfig α) (session : Session α) :
    c.realize.run.run session
      = (ExceptT.bindCont (fun plan => (liftM plan.realize : Action α (Scale α)))
          (c.plan (c.requested session).colors.schemes)).run (c.requested session) :=
  rfl

/-- A config with a plan becomes a scale. -/
theorem realize_of_plan {plan : ScalePlan α} (h : c.plan session.colors.schemes = .ok plan) :
    c.realize.run.run session
      = (.ok (plan.realize.run (c.requested session)).1,
          (plan.realize.run (c.requested session)).2) := by
  rw [realize_run, schemes_requested, h]
  rfl

/-- A config without a plan leaves at most its request in the session. -/
theorem realize_of_error {p : Problem α} (h : c.plan session.colors.schemes = .error p) :
    c.realize.run.run session = (.error p, c.requested session) := by
  rw [realize_run, schemes_requested, h]
  rfl

/-- A config without a plan and without a shared table leaves no trace in the session. -/
theorem realize_of_error_of_not_sharesColors {p : Problem α} (hshares : c.sharesColors = false)
    (h : c.plan session.colors.schemes = .error p) : c.realize.run.run session = (.error p, session) := by
  rw [realize_of_error h, requested_of_not_sharesColors hshares]

/-- Configs with the same request and the same plan become the same scale. -/
theorem realize_congr {c' : CompleteScaleConfig α} (hrequest : c.requested session = c'.requested session)
    (h : c.plan session.colors.schemes = c'.plan session.colors.schemes) :
    c.realize.run.run session = c'.realize.run.run session := by
  rw [realize_run, realize_run, schemes_requested, schemes_requested, hrequest, h]

/-- A config of a family that has no part in the session becomes the scale that it plans. -/
theorem realize_of_alone {x : Except (Problem α) (Scale α)} (hf : c.family ≠ .ordinal)
    (h : c.plan session.colors.schemes = x.map .alone) : c.realize.run.run session = (x, session) := by
  have hshares := not_sharesColors_of_family_ne hf
  cases x with
  | error p => exact realize_of_error_of_not_sharesColors hshares h
  | ok s =>
    rw [realize_of_plan h, requested_of_not_sharesColors hshares]
    rfl

theorem realize_of_isBanded (hf : c.family.isBanded = true) (session : Session α) :
    c.realize.run.run session = (c.band.map .band, session) := by
  refine realize_of_alone ?_ ?_
  · intro h
    rw [h] at hf
    nomatch hf
  · rw [plan_of_isBanded _ hf]
    cases c.band <;> rfl

theorem realize_of_isContinuous (hf : c.family.isContinuous = true) (hs : c.family ≠ .symlog)
    (session : Session α) :
    c.realize.run.run session
      = ((c.continuous session.colors.schemes).map .continuous, session) := by
  refine realize_of_alone ?_ ?_
  · intro h
    rw [h] at hf
    nomatch hf
  · rw [plan_of_isContinuous _ hf hs]
    cases c.continuous session.colors.schemes <;> rfl

/-! ## Configs with a shared color table -/

/-- The scheme and group of the color table that the scale requests. -/
def colorRequest (c : CompleteScaleConfig α) (schemes : SchemeRegistry) : String × String :=
  SharedTables.requestKey { schemes } (c.setting .scheme) (c.setting .colorGroup)

/-- The categories of the domain. -/
def categories? (c : CompleteScaleConfig α) : Except (Problem α) (Categories α) :=
  c.discreteDomain?.map fun domain? => .ofList (domain?.getD [])

theorem plan_of_sharesColors {c : CompleteScaleConfig α} (schemes : SchemeRegistry)
    (h : c.sharesColors = true) :
    c.plan schemes
      = c.categories?.map (.colors (c.setting .scheme) (c.setting .colorGroup)) := by
  unfold sharesColors at h
  rw [Bool.and_eq_true, beq_iff_eq, Option.isNone_iff_eq_none] at h
  unfold plan categories?
  rw [h.1]
  dsimp only
  unfold ordinal
  rw [h.2]
  cases c.discreteDomain? <;> rfl

/-- No other config has a plan that requests a color table or makes a scale on one. -/
theorem plan_of_not_sharesColors {c : CompleteScaleConfig α} {schemes : SchemeRegistry}
    {plan : ScalePlan α} (h : c.sharesColors = false) (hplan : c.plan schemes = .ok plan) :
    (∃ s, plan = .alone s ∧ (∀ table domain, s ≠ .colors table domain) ∧ ∀ id, s ≠ .ordinal id) ∨
      ∃ o, plan = .ordinal o := by
  unfold CompleteScaleConfig.plan at hplan
  cases hf : c.family with
  | ordinal =>
    rw [hf] at hplan
    obtain ⟨domain?, -, hplan⟩ := Outcome.bind_eq_ok_iff.mp hplan
    cases hr : c.setting .range with
    | none =>
      unfold sharesColors at h
      rw [hf, hr] at h
      nomatch h
    | some range =>
      rw [hr] at hplan
      cases hplan
      exact Or.inr ⟨_, rfl⟩
  | symlog =>
    rw [hf] at hplan
    nomatch hplan
  | binOrdinal =>
    rw [hf] at hplan
    obtain ⟨-, -, hplan⟩ := Outcome.bind_eq_ok_iff.mp hplan
    obtain ⟨domain?, -, hplan⟩ := Outcome.bind_eq_ok_iff.mp hplan
    cases hplan
    exact Or.inl ⟨_, rfl, nofun, nofun⟩
  | _ =>
    rw [hf] at hplan
    obtain ⟨_, -, hplan⟩ := Outcome.bind_eq_ok_iff.mp hplan
    cases hplan
    exact Or.inl ⟨_, rfl, nofun, nofun⟩

/-- A config with a shared color table requests it and gives the categories of its domain their colors,
provided that they can be read. -/
theorem realize_of_sharesColors {c : CompleteScaleConfig α} {domain : Categories α}
    (h : c.sharesColors = true) (hdomain : c.categories? = .ok domain) (session : Session α) :
    c.realize.run.run session
      = (.ok (.colors (session.colors.tableFor (c.setting .scheme) (c.setting .colorGroup)).1 domain),
        { session with
          colors := session.colors.changeFor (c.setting .scheme) (c.setting .colorGroup) fun t =>
            t.preassign domain }) := by
  have hplan : c.plan session.colors.schemes
      = .ok (.colors (c.setting .scheme) (c.setting .colorGroup) domain) := by
    rw [plan_of_sharesColors _ h, hdomain]
    rfl
  rw [realize_of_plan hplan, requested_of_sharesColors h, ScalePlan.run_realize_colors]
  -- the plan asks once more for the table that has just been requested
  dsimp only
  rw [SharedTables.tableFor_tableFor, SharedTables.changeFor_tableFor]

/-- A config without a shared color table does not touch the color tables. -/
theorem colors_realize_of_not_sharesColors {c : CompleteScaleConfig α} (h : c.sharesColors = false)
    (session : Session α) : (c.realize.run.run session).2.colors = session.colors := by
  cases hplan : c.plan session.colors.schemes with
  | error p => rw [realize_of_error_of_not_sharesColors h hplan]
  | ok plan =>
    rw [realize_of_plan hplan, requested_of_not_sharesColors h]
    rcases plan_of_not_sharesColors h hplan with ⟨s, rfl, -⟩ | ⟨o, rfl⟩ <;> rfl

end CompleteScaleConfig

end VisualEncoding
