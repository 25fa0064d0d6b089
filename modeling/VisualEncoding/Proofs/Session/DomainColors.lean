import VisualEncoding.Proofs.Session.EqualKeys
import VisualEncoding.Proofs.Color.InTurn
import VisualEncoding.Proofs.Scale.Categories

/-!
# The colors of a domain

A scale on a shared table that is made with a domain settles each category of it on the color of its place,
whatever the table has been through before. From then on the color can be had by every scale on the table,
until a step gives colors in that table on purpose. `SessionStep.Spares` says which steps do not: they give
no color to any key (`lastGiven?_of_spares`), and so what is settled stays.

> `lookUp_of_domain`: the `i`-th distinct value of the domain has the `i`-th color of the palette, which
> starts over when it runs out.
-/

namespace VisualEncoding

variable {α : Type} [Scalar α]

namespace SessionStep

variable {schemes : SchemeRegistry} {request : String × String}

/-- The step does not give colors on purpose in the table of a request: it makes no scale on that table,
pins nothing in it and does not take it out of use. What it asks for does not matter. -/
def Spares (schemes : SchemeRegistry) (request : String × String) : SessionStep α → Prop
  | .create c => ¬ (c.sharesColors ∧ c.colorRequest schemes = request)
  | .lookUp _ _ => True
  | .pin scheme group _ _ => SharedTables.requestKey { schemes } scheme group ≠ request
  | .reset => False

/-- No key is given a color. -/
theorem given?_of_spares {step : SessionStep α} (h : step.Spares schemes request) (key : String) :
    step.given? schemes request key = none := by
  cases step with
  | create c => exact if_neg h
  | lookUp scale v => rfl
  | pin scheme group v color => exact if_neg fun hgiven => h hgiven.1
  | reset => rfl

theorem lastGiven?_of_spares {steps : List (SessionStep α)}
    (h : ∀ step ∈ steps, step.Spares schemes request) (key : String) :
    lastGiven? schemes request key steps = none := by
  induction steps with
  | nil => rfl
  | cons step steps ih =>
    obtain ⟨hstep, hsteps⟩ := List.forall_mem_cons.mp h
    rw [lastGiven?_cons, ih hsteps, given?_of_spares hstep key]
    rfl

omit [Scalar α] in
theorem reset_not_mem_of_spares {steps : List (SessionStep α)}
    (h : ∀ step ∈ steps, step.Spares schemes request) : SessionStep.reset ∉ steps :=
  fun hmem => h _ hmem

end SessionStep

namespace SessionRun

open SessionStep

variable {r r' : SessionRun α} {c : CompleteScaleConfig α} {domain : Categories α}

/-- A scale whose domain can be read is made on the table that it requests. -/
theorem next_create_of_categories (r : SessionRun α) (hshares : c.sharesColors = true)
    (hdomain : c.categories? = .ok domain) :
    (r.next (.create c)).colors
        = r.colors.changeFor (c.setting .scheme) (c.setting .colorGroup) (fun t => t.preassign domain) ∧
      (r.next (.create c)).made
        = r.made ++ [(c, .colors
            (r.colors.tableFor (c.setting .scheme) (c.setting .colorGroup)).1 domain)] := by
  rcases colors_next_create r c with ⟨domain', -, hdomain', hcolors, hmade⟩ | ⟨herror, -, -⟩
  · cases hdomain.symm.trans hdomain'
    exact ⟨hcolors, hmade⟩
  · obtain ⟨p, hp⟩ := herror hshares
    rw [hdomain] at hp
    nomatch hp

/-- A scale that is made on a shared table settles the values of its domain on the colors of their places
in the palette. -/
theorem settled?_next_create {palette : List String} {key : String} {i : Nat}
    (hr : r.colors.Consistent) (hshares : c.sharesColors = true) (hdomain : c.categories? = .ok domain)
    (hpalette : r.colors.schemes.palette (c.setting .scheme) = palette) (hne : palette ≠ [])
    (hi : domain.position? key = some i) :
    ((r.next (.create c)).colors.table
        (r.colors.tableFor (c.setting .scheme) (c.setting .colorGroup)).1).settled? key
      = some (ColorTable.colorAt palette i) := by
  have htable : ((r.colors.tableFor (c.setting .scheme) (c.setting .colorGroup)).2.table
      (r.colors.tableFor (c.setting .scheme) (c.setting .colorGroup)).1).palette = palette := by
    have hinUse := SharedTables.inUse?_tableFor r.colors (c.setting .scheme) (c.setting .colorGroup)
      (r.colors.requestKey (c.setting .scheme) (c.setting .colorGroup))
    rw [if_pos rfl] at hinUse
    rw [(hr.tableFor _ _).palette _ _ hinUse, SharedTables.schemes_tableFor]
    exact hpalette
  rw [(next_create_of_categories r hshares hdomain).1, SharedTables.table_changeFor_self hr,
    ColorTable.settled?_preassign, htable]
  unfold ColorTable.paletteColor?
  rw [hi, Option.bind_some, ColorTable.getElem?_eq_colorAt hne i]
  rfl

/-- **The colors of a domain.** In a session with any past, a scale with a domain is made on a shared table.
Until the next scale or pin on that table, and as long as there is no reset, the `i`-th distinct value of
the domain, reversed if the config says so, has the color with that number by every scale on the table, and
the palette starts over when it runs out. -/
theorem lookUp_of_domain (schemes : SchemeRegistry) (past between : List (SessionStep α))
    (hr : r = (start schemes).after past) (hr' : r' = (r.next (.create c)).after between)
    (hshares : c.sharesColors = true) {entries : List (DomainEntry α)} {values : List (Value α)}
    (hentries : c.setting .domain = some entries)
    (hvalues : List.Forall₂ (fun entry v => CompleteScaleConfig.valueOfEntry entry = .ok v) entries values)
    {palette : List String} (hpalette : schemes.palette (c.setting .scheme) = palette)
    (hne : palette ≠ []) (hbetween : ∀ step ∈ between, step.Spares schemes (c.colorRequest schemes)) :
    ∃ id domain, domain = .ofList (if c.isReversed then values.reverse else values) ∧
      (r.next (.create c)).made = r.made ++ [(c, .colors id domain)] ∧
      ∀ j c' domain' (v : Value α) i, r'.made[j]? = some (c', .colors id domain') →
        v.isNull = false → domain.position? v.key = some i →
        ∃ color, palette[i % palette.length]? = some color ∧ (r'.lookUp j v).1 = .string color := by
  have hdomain := CompleteScaleConfig.categories?_of_entries hentries hvalues
  have hconsistent : r.colors.Consistent := by
    rw [hr]
    exact consistent_after (consistent_start schemes) past
  have hschemes : r.colors.schemes = schemes := by
    rw [hr]
    exact schemes_after (start schemes) past
  obtain ⟨hcolors, hmade⟩ := next_create_of_categories r hshares hdomain
  refine ⟨_, _, rfl, hmade, ?_⟩
  intro j c' domain' v i hj hv hi
  -- the value is settled on the table in use, and nothing in between can change that
  have hinUse := SharedTables.inUse?_changeFor r.colors (c.setting .scheme) (c.setting .colorGroup)
    fun t => t.preassign (Categories.ofList (if c.isReversed then values.reverse else values))
  rw [← hcolors] at hinUse
  have hrequest : r.colors.requestKey (c.setting .scheme) (c.setting .colorGroup)
      = c.colorRequest schemes := by
    unfold CompleteScaleConfig.colorRequest SharedTables.requestKey
    rw [hschemes]
  rw [hrequest] at hinUse
  have hsettled := settled?_after (reset_not_mem_of_spares hbetween)
    (consistent_next hconsistent (.create c)) hinUse
    (settled?_next_create hconsistent hshares hdomain (by rw [hschemes, hpalette]) hne hi)
  rw [← hr', schemes_next, hschemes, lastGiven?_of_spares hbetween] at hsettled
  refine ⟨_, ColorTable.getElem?_eq_colorAt hne i, ?_⟩
  rw [lookUp_of_made hj hv, ColorTable.colorOfKey_of_settled hsettled]
  rfl

/-- Colors of the default scheme for a domain of two, the last first. -/
def colorsOfTwoReversed : CompleteScaleConfig Float where
  family := .ordinal
  options := (ScaleOptions.empty.set .domain
    (some [.value (.string "x"), .value (.string "y")])).set .reverse (some true)

/-- A look-up of another value, and a pin in another table. -/
def lookUpAndPinElsewhere : List (SessionStep Float) :=
  [.lookUp 0 (.string "z"), .pin (some "set1") none (.string "x") "red"]

/-- The session with a scale that has given the values of the domain other colors. -/
def withOtherColors : SessionRun Float := withAnyColors.after [.lookUp 0 (.string "x")]

/-- The scale that was there before has the new color too. -/
theorem lookUp_of_domain_reversed :
    (((withOtherColors.next (.create colorsOfTwoReversed)).after lookUpAndPinElsewhere).lookUp 0
      (.string "x")).1 = .string "#f28e2b" := by
  have hpin : SharedTables.requestKey { schemes := {} } (some "set1") none
      ≠ colorsOfTwoReversed.colorRequest {} := by decide
  have hspares : ∀ step ∈ lookUpAndPinElsewhere,
      step.Spares {} (colorsOfTwoReversed.colorRequest {}) :=
    List.forall_mem_cons.mpr ⟨trivial, List.forall_mem_singleton.mpr hpin⟩
  obtain ⟨id, domain, hdomain, hmade, hcolors⟩ := lookUp_of_domain {}
    [.create anyColors, .lookUp 0 (.string "x")] lookUpAndPinElsewhere (r := withOtherColors)
    (c := colorsOfTwoReversed) rfl rfl rfl rfl (.cons rfl (.cons rfl .nil)) rfl
    (List.cons_ne_nil _ _) hspares
  -- both scales are on the first table
  have hid : some (colorsOfTwoReversed, Scale.colors 0 domain)
      = some (colorsOfTwoReversed, Scale.colors id domain) := by
    rw [hdomain] at hmade ⊢
    exact congrArg (·[1]?) hmade
  cases hid
  obtain ⟨color, hcolor, hanswer⟩ := hcolors 0 anyColors .empty (.string "x") 1 rfl rfl
    (by rw [hdomain]; rfl)
  cases hcolor
  exact hanswer

end SessionRun

end VisualEncoding
