import VisualEncoding.Proofs.Calendar.SpanFaults
import VisualEncoding.Proofs.Scale.Coverage

/-!
# Scales of time at the ends of the calendar

The steps of the calendar are where a scale of time can fail to have a result: when the ends of its domain are moved to
round instants, and when its ticks are looked for. What else a config is read for fails with a problem of its own
(`CompleteScaleConfig.continuous_error`). So scales of time share the exceptions of spans of time, and have no others:

> `Calendar.leaves_only_at_its_ends`: a computation leaves the calendar from a reading before the first boundary or from
> the last one on, and never for want of a remainder.
-/

namespace VisualEncoding

open Extended (finite)

open Calendar (Zone NicesOutside TicksOutside AreEnds)

/-! ## Ends of a domain -/

namespace Continuous

variable {s : Continuous Extended} {count : ℕ} {fault : Calendar.IntervalFault}

/-- Moving the ends of a domain of time fails where the span between them does. -/
theorem nice_error (htime : s.family.isTime = true) (hcount : 1 ≤ count) (h : s.nice count = .error fault) :
    fault = .outsideCalendar ∧ ∃ a b, s.domain.head? = some a ∧ s.domain.getLast? = some b ∧
      NicesOutside s.zone a b count := by
  have hzone : s.zone.Lags := Zone.lags_ofLocal _
  unfold nice moveEnds at h
  split at h
  next start second rest hdomain =>
    dsimp only at h
    rw [if_pos htime] at h
    rcases Outcome.bind_eq_error_iff.mp h with hspan | ⟨_, -, hpure⟩
    · obtain ⟨hfault, houtside⟩ := (Calendar.niceSpan_error_iff hzone hcount).mp hspan
      refine ⟨hfault, start, _, ?_, ?_, houtside⟩
      · rw [hdomain]
        rfl
      · rw [hdomain, List.getLast?_cons_cons]
        exact List.getLast?_eq_some_getLast _
    · nomatch hpure
  next => nomatch h

/-- Ticks of a scale of time fail where those of its span do. -/
theorem ticks_error (htime : s.family.isTime = true) (h : s.ticks count = .error fault) :
    fault = .outsideCalendar ∧ ∃ a b, s.domain.head? = some a ∧ s.domain.getLast? = some b ∧
      TicksOutside s.zone a b count := by
  have hzone : s.zone.Lags := Zone.lags_ofLocal _
  unfold ticks tickNumbers at h
  rcases Outcome.bind_eq_error_iff.mp h with hticks | ⟨_, -, hpure⟩
  · split at hticks
    next start stop hstart hstop =>
      rw [if_pos htime] at hticks
      obtain ⟨hfault, houtside⟩ := Calendar.spanTicks_error hzone hticks
      exact ⟨hfault, start, stop, hstart, hstop, houtside⟩
    next => nomatch hticks
  · nomatch hpure

end Continuous

/-! ## Configs -/

namespace CompleteScaleConfig

section Readers

variable {α : Type} {c : CompleteScaleConfig α} {fault : Calendar.IntervalFault}

theorem checkBins_ne_calendar : c.checkBins ≠ .error (.calendar fault) := by
  unfold checkBins
  split <;> nofun

theorem outputRange_ne_calendar (values : List (Value α)) (space : ColorSpace) :
    outputRange values space ≠ .error (.calendar fault) := by
  intro h
  unfold outputRange at h
  dsimp only at h
  split at h
  · nomatch h
  · rcases Outcome.bind_eq_error_iff.mp h with htexts | ⟨texts, -, hramp⟩
    · obtain ⟨v, -, hv⟩ := Outcome.exists_of_mapM_eq_error htexts
      split at hv <;> nomatch hv
    · rcases Outcome.bind_eq_error_iff.mp hramp with hread | ⟨_, -, hpure⟩
      · unfold rampOfTexts at hread
        split at hread <;> nomatch hread
      · nomatch hpure

variable [Scalar α] {schemes : SchemeRegistry}

theorem colorSpace?_ne_calendar : c.colorSpace? ≠ .error (.calendar fault) := by
  unfold colorSpace?
  split
  · nofun
  · nofun
  · intro h
    have hspace := Outcome.map_eq_error_iff.mp h
    unfold spaceOfMethod at hspace
    split at hspace
    · nomatch hspace
    · nomatch hspace
    · nomatch hspace
    · nomatch hspace
    · nomatch hspace
    · split at hspace <;> nomatch hspace

theorem niceCount?_ne_calendar : c.niceCount? ≠ .error (.calendar fault) := by
  unfold niceCount?
  split <;> nofun

theorem numericDomain?_ne_calendar (isTime : Bool) : c.numericDomain? isTime ≠ .error (.calendar fault) := by
  unfold numericDomain?
  split
  · nofun
  · intro h
    obtain ⟨entry, -, hentry⟩ := Outcome.exists_of_mapM_eq_error (Outcome.map_eq_error_iff.mp h)
    unfold numberOfEntry at hentry
    cases entry with
    | date spec =>
      dsimp only at hentry
      cases hspec : spec.resolve (c.family == .time) with
      | ok t =>
        rw [hspec] at hentry
        nomatch hentry
      | error fault' =>
        rw [hspec] at hentry
        nomatch hentry
    | value v =>
      simp only [bind, Except.bind, pure, Except.pure] at hentry
      split at hentry <;> nomatch hentry

/-- What is left to be done once the ends of a domain are moved. -/
def finish (c : CompleteScaleConfig α) (s : Continuous α) : Continuous α :=
  let s := s.withRound ((c.setting .round).getD s.round)
  if ScaleOptions.isOn (c.setting .zero) && !c.family.isTime then s.withZero else s

theorem nice_of_onCalendar {s : Continuous α} {count : ℕ}
    (h : (do return c.finish (← onCalendar (s.nice count)) : Except (Problem α) (Continuous α))
      = .error (.calendar fault)) :
    s.nice count = .error fault := by
  cases hnice : s.nice count with
  | error fault' =>
    rw [hnice] at h
    cases h
    rfl
  | ok s' =>
    rw [hnice] at h
    nomatch h

/-- A continuous config is read without the calendar but for the ends of its domain. -/
theorem continuous_error (h : c.continuous schemes = .error (.calendar fault)) :
    ∃ (domain? : Option (List α)) (range : OutputRange α) (s : Continuous α) (count : ℕ),
      c.numericDomain? c.family.isTime = .ok domain? ∧ c.niceCount? = .ok (some count) ∧ s.family = c.family ∧
        s.domain = (c.stopsOver domain? range).domain ∧ s.nice count = .error fault := by
  unfold continuous at h
  cases hdomain : c.numericDomain? c.family.isTime with
  | error p =>
    unfold continuousStops at h
    rw [hdomain] at h
    cases h
    exact absurd hdomain (numericDomain?_ne_calendar _)
  | ok domain? =>
    rw [continuousStops_eq hdomain] at h
    cases hrange : c.outputStops? schemes with
    | error p =>
      rw [hrange] at h
      cases h
      unfold outputStops? at hrange
      split at hrange
      · exact absurd hrange (outputRange_ne_calendar _ _)
      · nomatch hrange
    | ok range =>
      rw [hrange] at h
      cases hbins : c.checkBins with
      | error p =>
        rw [hbins] at h
        cases h
        exact absurd hbins checkBins_ne_calendar
      | ok u =>
        cases hspace : c.colorSpace? with
        | error p =>
          rw [hbins, hspace] at h
          cases h
          exact absurd hspace colorSpace?_ne_calendar
        | ok space? =>
          cases hcount : c.niceCount? with
          | error p =>
            rw [hbins, hspace, hcount] at h
            cases space? <;> cases h <;> exact absurd hcount niceCount?_ne_calendar
          | ok count? =>
            rw [hbins, hspace, hcount] at h
            -- neither the clamp nor the space of blending concerns the family and the domain
            cases count? with
            | none => cases space? <;> nomatch h
            | some count =>
              cases space? with
              | none =>
                exact ⟨domain?, range, (c.stopsOver domain? range).withClamp ((c.setting .clamp).getD false), count, rfl,
                  rfl, rfl, rfl, nice_of_onCalendar (c := c) h⟩
              | some space =>
                refine ⟨domain?, range,
                  ((c.stopsOver domain? range).withClamp ((c.setting .clamp).getD false)).withSpace space, count, rfl,
                  rfl, ?_, ?_, nice_of_onCalendar (c := c) h⟩
                · unfold Continuous.withSpace
                  split <;> rfl
                · unfold Continuous.withSpace
                  split <;> rfl

end Readers

variable {c : CompleteScaleConfig Extended} {session after : Session Extended} {fault : Calendar.IntervalFault}

/-- The ends of the domain of a config of time are to be moved out of the calendar. -/
def NicesOutside (c : CompleteScaleConfig Extended) : Prop :=
  ∃ domain? count a b, c.numericDomain? true = .ok domain? ∧ c.niceCount? = .ok (some count) ∧
    (domain?.elim [0, 1] c.orient).head? = some a ∧ (domain?.elim [0, 1] c.orient).getLast? = some b ∧
      Calendar.NicesOutside (Zone.ofLocal (c.family == .time)) a b count

/-- Where a config of time does not become a scale because of the calendar, it is to be moved out of it. -/
theorem realize_error (htime : c.family.isTime = true)
    (h : c.realize.run.run session = (.error (.calendar fault), after)) :
    fault = .outsideCalendar ∧ c.NicesOutside := by
  have hcontinuous : c.family.isContinuous = true ∧ c.family ≠ .symlog ∧ c.family ≠ .ordinal := by
    cases hf : c.family with
    | time | utc => exact ⟨rfl, nofun, nofun⟩
    | _ =>
      rw [hf] at htime
      nomatch htime
  obtain ⟨hkind, hsymlog, hordinal⟩ := hcontinuous
  have hplan : c.plan session.colors.schemes = .error (.calendar fault) := by
    cases hplan : c.plan session.colors.schemes with
    | ok plan =>
      rw [realize_of_plan hplan] at h
      nomatch h
    | error p =>
      rw [realize_of_error_of_not_sharesColors (not_sharesColors_of_family_ne hordinal) hplan] at h
      cases h
      rfl
  rw [plan_of_isContinuous _ hkind hsymlog] at hplan
  obtain ⟨domain?, range, s, count, hdomain, hcount, hfamily, hstops, hnice⟩ :=
    continuous_error (Outcome.map_eq_error_iff.mp hplan)
  have hzone : s.zone = Zone.ofLocal (c.family == .time) := by
    unfold Continuous.zone
    rw [hfamily]
  obtain ⟨hfault, a, b, ha, hb, houtside⟩ := Continuous.nice_error (hfamily ▸ htime) (niceCount?_pos hcount) hnice
  rw [hstops] at ha hb
  rw [htime] at hdomain
  rw [hzone] at houtside
  exact ⟨hfault, domain?, count, a, b, hdomain, hcount, ha, hb, houtside⟩

end CompleteScaleConfig

/-! ## Spans and scales -/

namespace Calendar

/-- **Date arithmetic leaves the calendar only at its ends.** Let at least one part be asked for, at the prime meridian
or on the eastern clock.

Round ends of a span fail exactly if they lie outside the calendar: if the clocks show a reading before the first
boundary at the lower end or a millisecond before the upper one, or the last boundary or a later reading there. Ticks
fail only before the first boundary, or if the last one is not after the end of the span. Neither ever fails for want of
a remainder, and from five days after the start of the calendar to eight days before its end neither fails at all.

Scales of time fail with their spans: a config becomes a scale or has another problem unless the ends of its domain are
to be moved out of the calendar, and a scale has ticks unless they are looked for outside of it. -/
theorem leaves_only_at_its_ends {count : ℕ} (hcount : 1 ≤ count) (isLocal : Bool) :
    (∀ a b fault, niceSpan (Zone.ofLocal isLocal) a b count = .error fault ↔
      fault = .outsideCalendar ∧ NicesOutside (Zone.ofLocal isLocal) a b count) ∧
    (∀ a b fault, spanTicks (Zone.ofLocal isLocal) a b count = .error fault →
      fault = .outsideCalendar ∧ TicksOutside (Zone.ofLocal isLocal) a b count) ∧
    (∀ a b x y, AreEnds a b x y → x ≤ y → 1000 * (calendarStart + 5 * 86400) + 1 ≤ x →
      y ≤ 1000 * (calendarEnd - 8 * 86400) → (∃ ends, niceSpan (Zone.ofLocal isLocal) a b count = .ok ends) ∧
        ∃ ticks, spanTicks (Zone.ofLocal isLocal) a b count = .ok ticks) ∧
    (∀ (c : CompleteScaleConfig Extended) session after fault, c.family = (if isLocal then .time else .utc) →
      c.realize.run.run session = (.error (.calendar fault), after) → fault = .outsideCalendar ∧ c.NicesOutside) ∧
    ∀ (s : Continuous Extended) fault, s.family = (if isLocal then .time else .utc) → s.ticks count = .error fault →
      fault = .outsideCalendar ∧ ∃ a b, s.domain.head? = some a ∧ s.domain.getLast? = some b ∧
        TicksOutside (Zone.ofLocal isLocal) a b count := by
  have hzone := Zone.lags_ofLocal isLocal
  have hfamily : ∀ family : ScaleFamily, family = (if isLocal then .time else .utc) →
      family.isTime = true ∧ (family == .time) = isLocal := by
    rintro _ rfl
    cases isLocal <;> exact ⟨rfl, rfl⟩
  refine ⟨fun a b fault => niceSpan_error_iff hzone hcount, fun a b fault => spanTicks_error hzone,
    fun a b x y hends hxy hx hy => exists_niceSpan_spanTicks hzone hcount hx hxy hy hends,
    fun c session after fault hf => CompleteScaleConfig.realize_error (hfamily _ hf).1, fun s fault hf herror => ?_⟩
  obtain ⟨htime, hlocal⟩ := hfamily _ hf
  have hszone : s.zone = Zone.ofLocal isLocal := by
    unfold Continuous.zone
    rw [hlocal]
  rw [← hszone]
  exact Continuous.ticks_error htime herror

/-- The first day of 1970 has round ends and ticks on the eastern clock. -/
theorem leaves_only_at_its_ends_first_day :
    1 ≤ 24 ∧ (∃ ends, niceSpan (Zone.ofLocal true) (finite 0) (finite 86400000) 24 = .ok ends) ∧
      ∃ ticks, spanTicks (Zone.ofLocal true) (finite 0) (finite 86400000) 24 = .ok ticks := by
  obtain ⟨-, -, hinner, -, -⟩ := leaves_only_at_its_ends (show 1 ≤ 24 by decide) true
  refine ⟨by decide, hinner _ _ 0 86400000 (.inl ⟨rfl, rfl⟩) (by norm_num) ?_ ?_⟩
  · rw [calendarStart_eq]
    norm_num
  · rw [calendarEnd_eq]
    norm_num

/-- The ticks of the last day of the calendar are looked for an hour after its last, and round ends of its first days on
the Sunday before it and on a clock that does not show it yet. -/
theorem leaves_at_its_ends :
    spanTicks Zone.utc (8210266790400000 : Float) 8210266876799999 24 = .error .outsideCalendar ∧
      niceSpan Zone.utc (-8334601228800000 : Float) (-8334592588800000) 10 = .error .outsideCalendar ∧
      niceSpan Zone.eastern (-8334601228800000 : Float) (-8334601142400000) 10 = .error .outsideCalendar :=
  ⟨rfl, rfl, rfl⟩

end Calendar

end VisualEncoding
