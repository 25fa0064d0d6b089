import Mathlib.Logic.Equiv.Basic
import VisualEncoding.Proofs.Color.Exchange
import VisualEncoding.Proofs.Scale.Categories
import VisualEncoding.Proofs.Scale.Settings
import VisualEncoding.Proofs.Session.Renumbering

/-!
# What fitting does to a session

Fitting an encoder does one of three things to a session (`Refit`): nothing, it takes in an ordinal scale, or it
gives the categories of the new domain their colors in a shared table. Which of them it is does not depend on the
session (`exists_refit`), so two encoders can be fitted in either order:

> `Refit.exchange`: if they do not give colors to different domains in the same table, all comes out the same up
> to the numbers of what is new.
-/

namespace VisualEncoding

variable {α : Type} [Scalar α]

/-- What fitting an encoder does to a session. -/
inductive Refit (α : Type) [Scalar α] where
  /-- Nothing is done. -/
  | still (e : ChannelEncoder α)
  /-- The scale has a growing domain of its own. -/
  | ordinal (frame : ChannelEncoder α) (o : Ordinal α)
  /-- The scale shares a color table. -/
  | colors (frame : ChannelEncoder α) (scheme group : Option String) (domain : Categories α)

namespace Session

variable {c : Session α}

/-- A table is requested for a domain, whose categories get their colors. -/
def giveColors (c : Session α) (scheme group : Option String) (domain : Categories α) : Session α :=
  { c with colors := c.colors.changeFor scheme group fun t => t.preassign domain }

/-- The number of the table that a request gets. -/
def tableNumber (c : Session α) (scheme group : Option String) : Nat := (c.colors.tableFor scheme group).1

theorem grows_giveColors (c : Session α) (scheme group : Option String) (domain : Categories α) :
    c.Grows (c.giveColors scheme group domain) where
  tables := by
    show _ ≤ (c.colors.changeFor scheme group _).tables.size
    rw [SharedTables.size_changeFor]
    exact c.colors.size_le_tableFor scheme group
  ordinals := Nat.le_refl _

/-- Two ordinal scales that are taken in in the other order exchange their numbers. -/
theorem pushOrdinal_exchange (h : c.colors.Consistent) (o o' : Ordinal α) :
    ∃ g : Renumbering, g.AgreeOn c {} ∧ g.ordinal c.ordinalCount = c.ordinalCount + 1 ∧
      g.ordinal (c.ordinalCount + 1) = c.ordinalCount ∧
      ((c.pushOrdinal o).pushOrdinal o').Embeds g ((c.pushOrdinal o').pushOrdinal o) := by
  generalize hn : c.ordinalCount = n
  have hcount : ∀ o : Ordinal α, (c.pushOrdinal o).ordinalCount = n + 1 := fun o => by
    rw [ordinalCount_pushOrdinal, hn]
  have hcount' : ∀ o o' : Ordinal α, ((c.pushOrdinal o).pushOrdinal o').ordinalCount = n + 2 := fun o o' => by
    rw [ordinalCount_pushOrdinal, hcount]
  have hordinal : ∀ o o' id, ((c.pushOrdinal o).pushOrdinal o').ordinal id
      = if id = n + 1 then o' else if id = n then o else c.ordinal id := fun o o' id => by
    rw [ordinal_pushOrdinal, ordinal_pushOrdinal, hcount, hn]
  have hold : ∀ id < n, Equiv.swap n (n + 1) id = id := fun id hid =>
    Equiv.swap_apply_of_ne_of_ne (by omega) (by omega)
  have hfirst : Equiv.swap n (n + 1) n = n + 1 := Equiv.swap_apply_left ..
  have hsecond : Equiv.swap n (n + 1) (n + 1) = n := Equiv.swap_apply_right ..
  have hcases : ∀ id < n + 2, id < n ∨ id = n ∨ id = n + 1 := by omega
  refine ⟨{ ordinal := Equiv.swap n (n + 1) }, ⟨fun _ _ => rfl, fun id hid => hold id (hn ▸ hid)⟩, hfirst, hsecond,
    .refl h, ?_, fun _ _ _ _ hsame => (Equiv.swap n (n + 1)).injective hsame, ?_⟩
  · intro id hid
    rw [hcount'] at hid ⊢
    show Equiv.swap n (n + 1) id < n + 2
    rcases hcases id hid with hlt | rfl | rfl
    · rw [hold id hlt]
      exact hid
    · rw [hfirst]
      omega
    · rw [hsecond]
      omega
  · intro id hid
    rw [hcount'] at hid
    rw [hordinal, hordinal]
    show (if Equiv.swap n (n + 1) id = n + 1 then o else if Equiv.swap n (n + 1) id = n then o'
      else c.ordinal (Equiv.swap n (n + 1) id)) = _
    rcases hcases id hid with hlt | rfl | rfl
    · rw [hold id hlt, if_neg (by omega), if_neg (by omega), if_neg (by omega), if_neg (by omega)]
    · rw [hfirst, if_pos rfl, if_neg (by omega), if_pos rfl]
    · rw [hsecond, if_neg (by omega), if_pos rfl, if_pos rfl]

end Session

namespace Refit

variable {x y : Refit α} {c : Session α}

/-- Does it. -/
def run (c : Session α) : Refit α → ChannelEncoder α × Session α
  | .still e => (e, c)
  | .ordinal frame o => ({ frame with scale := some (.ordinal c.ordinalCount) }, c.pushOrdinal o)
  | .colors frame scheme group domain =>
    ({ frame with scale := some (.colors (c.tableNumber scheme group) domain) }, c.giveColors scheme group domain)

/-- If nothing is done, the encoder is there. -/
def IsIn (c : Session α) : Refit α → Prop
  | .still e => e.IsIn c
  | _ => True

theorem IsIn.mono {c' : Session α} (h : x.IsIn c) (hgrows : c.Grows c') : x.IsIn c' := by
  cases x with
  | still e => exact ChannelEncoder.IsIn.mono h hgrows
  | _ => trivial

theorem schemes_run (x : Refit α) (c : Session α) : (x.run c).2.colors.schemes = c.colors.schemes := by
  cases x with
  | colors frame scheme group domain => exact SharedTables.schemes_changeFor _ _ _ _
  | _ => rfl

theorem consistent_run (x : Refit α) (h : c.colors.Consistent) : (x.run c).2.colors.Consistent := by
  cases x with
  | colors frame scheme group domain => exact h.changeFor _ _ fun t => t.palette_preassign domain
  | _ => exact h

theorem grows_run (x : Refit α) (c : Session α) : c.Grows (x.run c).2 := by
  cases x with
  | still e => exact .refl c
  | ordinal frame o => exact c.grows_pushOrdinal o
  | colors frame scheme group domain => exact c.grows_giveColors scheme group domain

/-- What is made is there. -/
theorem isIn_run (hx : x.IsIn c) (h : c.colors.Consistent) : (x.run c).1.IsIn (x.run c).2 := by
  cases x with
  | still e => exact hx
  | ordinal frame o =>
    rintro s ⟨⟩
    show c.ordinalCount < (c.pushOrdinal o).ordinalCount
    rw [Session.ordinalCount_pushOrdinal]
    exact Nat.lt_succ_self _
  | colors frame scheme group domain =>
    rintro s ⟨⟩
    show _ < (c.colors.changeFor scheme group _).tables.size
    rw [SharedTables.size_changeFor]
    exact h.tableFor_lt scheme group

/-! ## Two after each other -/

/-- Two encoders are fitted in either order, and all comes out the same up to the numbers of what is new. -/
def Exchanges (x y : Refit α) (c : Session α) : Prop :=
  ∃ g : Renumbering, g.AgreeOn c {} ∧
    Session.Embeds g (y.run (x.run c).2).2 (x.run (y.run c).2).2 ∧
    (x.run c).1.Renumbered g (y.run (x.run c).2).2 (x.run (y.run c).2).1 ∧
    (y.run (x.run c).2).1.Renumbered g (y.run (x.run c).2).2 (y.run c).1

/-- They may even come out with the same numbers. -/
theorem Exchanges.of_eq (hx : x.IsIn c) (hy : y.IsIn c) (h : c.colors.Consistent)
    (hsession : (x.run (y.run c).2).2 = (y.run (x.run c).2).2)
    (hfirst : (x.run (y.run c).2).1 = (x.run c).1) (hsecond : (y.run c).1 = (y.run (x.run c).2).1) :
    Exchanges x y c := by
  have hafter := x.consistent_run h
  refine ⟨{}, .refl c {}, ?_, ⟨(isIn_run hx h).mono (y.grows_run _), ?_⟩,
    ⟨isIn_run (hy.mono (x.grows_run c)) hafter, ?_⟩⟩
  · rw [hsession]
    exact .refl (y.consistent_run hafter)
  · rw [hfirst, ChannelEncoder.renumber_same]
  · rw [hsecond, ChannelEncoder.renumber_same]

/-- The numbers of two new ordinal scales are exchanged. -/
theorem exchanges_ordinals (h : c.colors.Consistent) (frame frame' : ChannelEncoder α) (o o' : Ordinal α) :
    Exchanges (.ordinal frame o) (.ordinal frame' o') c := by
  obtain ⟨g, hold, hfirst, hsecond, hsession⟩ := Session.pushOrdinal_exchange h o o'
  have hcount : ∀ o : Ordinal α, (c.pushOrdinal o).ordinalCount = c.ordinalCount + 1 := c.ordinalCount_pushOrdinal
  refine ⟨g, hold, hsession, ⟨?_, ?_⟩, ⟨?_, ?_⟩⟩
  · exact (isIn_run (x := .ordinal frame o) trivial h).mono (Session.grows_pushOrdinal _ o')
  · show ({ frame with scale := some (.ordinal (c.pushOrdinal o').ordinalCount) } : ChannelEncoder α)
      = { frame with scale := some (.ordinal (g.ordinal c.ordinalCount)) }
    rw [hcount, hfirst]
  · exact isIn_run (x := .ordinal frame' o') trivial h
  · show ({ frame' with scale := some (.ordinal c.ordinalCount) } : ChannelEncoder α)
      = { frame' with scale := some (.ordinal (g.ordinal (c.pushOrdinal o).ordinalCount)) }
    rw [hcount, hsecond]

/-- Colors that are given in different tables. -/
theorem exchanges_colors (h : c.colors.Consistent) (frame frame' : ChannelEncoder α)
    {scheme group scheme' group' : Option String} (domain domain' : Categories α)
    (hne : c.colors.requestKey scheme group ≠ c.colors.requestKey scheme' group') :
    Exchanges (.colors frame scheme group domain) (.colors frame' scheme' group' domain') c := by
  obtain ⟨g, hold, hfirst, hsecond, hcolors⟩ := SharedTables.changeFor_exchange h hne
    (fun t => t.preassign domain) (fun t => t.preassign domain') (fun t => t.palette_preassign domain)
    (fun t => t.palette_preassign domain')
  refine ⟨{ table := g }, ⟨hold, fun _ _ => rfl⟩, { Session.Embeds.refl h with colors := hcolors }, ⟨?_, ?_⟩, ⟨?_, ?_⟩⟩
  · exact (isIn_run (x := .colors frame scheme group domain) trivial h).mono
      (Session.grows_giveColors _ scheme' group' domain')
  · exact congrArg (fun id => ({ frame with scale := some (.colors id domain) } : ChannelEncoder α)) hfirst
  · exact isIn_run (x := .colors frame' scheme' group' domain') trivial
      (h.changeFor scheme group fun t => t.palette_preassign domain)
  · exact congrArg (fun id => ({ frame' with scale := some (.colors id domain') } : ChannelEncoder α)) hsecond

/-- **Two encoders are fitted in either order**, unless they give colors to different domains in the same
table. -/
theorem exchange (h : c.colors.Consistent) (hx : x.IsIn c) (hy : y.IsIn c)
    (hagree : ∀ frame frame' scheme group scheme' group' domain domain',
      x = .colors frame scheme group domain → y = .colors frame' scheme' group' domain' →
      c.colors.requestKey scheme group = c.colors.requestKey scheme' group' → domain = domain') :
    Exchanges x y c := by
  cases x with
  | still e => exact .of_eq hx hy h rfl rfl rfl
  | ordinal frame o =>
    cases y with
    | still e => exact .of_eq hx hy h rfl rfl rfl
    | ordinal frame' o' => exact exchanges_ordinals h frame frame' o o'
    | colors frame' scheme group domain => exact .of_eq hx hy h rfl rfl rfl
  | colors frame scheme group domain =>
    cases y with
    | still e => exact .of_eq hx hy h rfl rfl rfl
    | ordinal frame' o => exact .of_eq hx hy h rfl rfl rfl
    | colors frame' scheme' group' domain' =>
      by_cases hkey : c.colors.requestKey scheme group = c.colors.requestKey scheme' group'
      · -- the same colors are given twice
        cases hagree _ _ _ _ _ _ _ _ rfl rfl hkey
        have hcomm := SharedTables.changeFor_comm_of_same hkey fun t => t.preassign domain
        have hfirst := SharedTables.tableFor_changeFor_of_same hkey.symm fun t => t.preassign domain
        have hsecond := SharedTables.tableFor_changeFor_of_same hkey fun t => t.preassign domain
        exact .of_eq hx hy h (congrArg (fun colors => ({ c with colors } : Session α)) hcomm.symm)
          (congrArg (fun id => ({ frame with scale := some (.colors id domain) } : ChannelEncoder α)) hfirst)
          (congrArg (fun id => ({ frame' with scale := some (.colors id domain) } : ChannelEncoder α)) hsecond.symm)
      · exact exchanges_colors h frame frame' domain domain' hkey

end Refit

/-! ## What fitting comes to -/

/-- A definition is fitted if its scale leaves the domain open, and gets the domain that it observes. -/
theorem CompleteChannelDef.exists_of_fitted? {d d' : CompleteChannelDef α} {dataset : List (Datum α)}
    (h : d.fitted? dataset = some d') :
    ∃ config, d.scale? = some config ∧ config.isOpen = true ∧
      d'.scale? = some (config.withDomain (d.observedDomain dataset)) := by
  cases d with
  | constant v => nomatch h
  | field f =>
    obtain ⟨config, hconfig, rfl⟩ := Option.map_eq_some_iff.mp h
    obtain ⟨hscale, hopen⟩ := Option.filter_eq_some_iff.mp hconfig
    exact ⟨config, hscale, hopen, rfl⟩

namespace ChannelEncoder

variable {e e' : ChannelEncoder α} {dataset : List (Datum α)} {c after : Session α}

/-- The scheme and group for which fitting requests a color table, and the domain to which it gives colors there,
which is reversed if the scale is. -/
def requestedColors? (e : ChannelEncoder α) (schemes : SchemeRegistry) (dataset : List (Datum α)) :
    Option ((String × String) × List (Value α)) :=
  (e.definition.scale?.filter fun config => config.isOpen && config.sharesColors).map fun config =>
    (config.colorRequest schemes, config.orient (e.observedDomain dataset))

/-- The encoder for another definition, still without a scale. -/
def frame (e : ChannelEncoder α) (definition : CompleteChannelDef α) : ChannelEncoder α :=
  { e with definition, scale := none, formatter := formatterFor definition e.isLocal }

/-- What fitting does is the same in all sessions with the same schemes. -/
theorem exists_refit (hin : e.IsIn c) (hfit : (e.fit dataset).run.run c = (.ok e', after)) :
    ∃ x : Refit α, x.IsIn c ∧
      (∀ d : Session α, d.colors.schemes = c.colors.schemes →
        (e.fit dataset).run.run d = (.ok (x.run d).1, (x.run d).2)) ∧
      ∀ frame scheme group domain, x = .colors frame scheme group domain → ∃ values,
        e.requestedColors? c.colors.schemes dataset = some (c.colors.requestKey scheme group, values) ∧
          domain = .ofList values := by
  cases hfitted : e.definition.fitted? dataset with
  | none =>
    refine ⟨.still e, hin, fun d _ => ?_, fun _ _ _ _ h => nomatch h⟩
    rw [fit_of_not_fitted hfitted]
    rfl
  | some definition =>
    obtain ⟨config, hconfig, hopen, hscale⟩ := CompleteChannelDef.exists_of_fitted? hfitted
    generalize hvalues : e.definition.observedDomain dataset = values at hscale
    have hrun := ofComplete_of_some hscale e.name e.role e.isLocal
    rw [fit_of_fitted hfitted] at hfit ⊢
    obtain ⟨plan, hplan⟩ := (exists_ofComplete_iff hscale).mp ⟨e', after, hfit⟩
    cases hshares : (config.withDomain values).sharesColors with
    | false =>
      rcases CompleteScaleConfig.plan_of_not_sharesColors hshares hplan with ⟨s, rfl, hne, hne'⟩ | ⟨o, rfl⟩
      · refine ⟨.still { e.frame definition with scale := some s }, ?_, fun d hd => ?_, fun _ _ _ _ h => nomatch h⟩
        · rintro s' ⟨⟩
          exact Scale.isIn_of_ne hne hne' c
        · rw [← hd] at hplan
          rw [hrun, CompleteScaleConfig.realize_of_plan hplan,
            CompleteScaleConfig.requested_of_not_sharesColors hshares]
          rfl
      · refine ⟨.ordinal (e.frame definition) o, trivial, fun d hd => ?_, fun _ _ _ _ h => nomatch h⟩
        rw [← hd] at hplan
        rw [hrun, CompleteScaleConfig.realize_of_plan hplan,
          CompleteScaleConfig.requested_of_not_sharesColors hshares]
        rfl
    | true =>
      have hdomain : (config.withDomain values).categories? = .ok (.ofList (config.orient values)) := by
        have hread : List.Forall₂ (fun entry v => CompleteScaleConfig.valueOfEntry entry = .ok v)
            (values.map DomainEntry.value) values :=
          List.forall₂_map_left_iff.mpr (List.forall₂_same.mpr fun _ _ => rfl)
        exact CompleteScaleConfig.categories?_of_entries (CompleteScaleConfig.setting_withSetting_self _) hread
      refine ⟨.colors (e.frame definition)
        (config.setting .scheme) (config.setting .colorGroup) (.ofList (config.orient values)), trivial,
        fun d _ => ?_, ?_⟩
      · rw [hrun, CompleteScaleConfig.realize_of_sharesColors hshares hdomain]
        rfl
      · rintro _ _ _ _ ⟨⟩
        refine ⟨config.orient values, ?_, rfl⟩
        unfold requestedColors? observedDomain
        rw [hconfig, Option.filter_some, hopen, show config.sharesColors = true from hshares, hvalues]
        rfl

end ChannelEncoder

end VisualEncoding
