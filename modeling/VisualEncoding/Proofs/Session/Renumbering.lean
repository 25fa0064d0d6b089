import VisualEncoding.Proofs.Channel.Encoders
import VisualEncoding.Proofs.Color.Renumbering
import VisualEncoding.Proofs.Scale.Realization

/-!
# Sessions under other numbers

A scale refers to its color table or to its growing domain by number. So two sessions whose tables and
ordinal scales are the same but for their numbers (`Session.Embeds`) are the same for scales that are
renumbered alike (`Scale.renumber`):

> `apply_embeds`, `domain_renumber`, `range_renumber`, `ticks_renumber`: such scales answer alike.
> `realize_embeds`, `ofComplete_embeds`, `fit_embeds`: what is made in such sessions is the same up to the
> renumbering, or cannot be made in either for the same reason.

`Action.Embeds` says the latter of any action, so that it has to be spelled out only once.
-/

namespace VisualEncoding

variable {α : Type} [Scalar α]

/-! ## What there is in a session -/

namespace Session

variable {c c' c'' : Session α}

/-- The number of color tables that were made. -/
def tableCount (c : Session α) : Nat := c.colors.tables.size

/-- The number of ordinal scales that were made. -/
def ordinalCount (c : Session α) : Nat := c.ordinals.size

/-- Nothing that there was is gone. -/
structure Grows (c c' : Session α) : Prop where
  tables : c.tableCount ≤ c'.tableCount
  ordinals : c.ordinalCount ≤ c'.ordinalCount

theorem Grows.refl (c : Session α) : c.Grows c := ⟨Nat.le_refl _, Nat.le_refl _⟩

theorem Grows.trans (h : c.Grows c') (h' : c'.Grows c'') : c.Grows c'' :=
  ⟨Nat.le_trans h.tables h'.tables, Nat.le_trans h.ordinals h'.ordinals⟩

end Session

/-- New numbers for color tables and ordinal scales. -/
structure Renumbering where
  table : Nat → Nat := id
  ordinal : Nat → Nat := id

namespace Renumbering

/-- One renumbering after another. -/
def comp (g f : Renumbering) : Renumbering where
  table := g.table ∘ f.table
  ordinal := g.ordinal ∘ f.ordinal

variable {f g : Renumbering} {c c' : Session α}

/-- Two renumberings agree on what there is in a session. -/
structure AgreeOn (c : Session α) (g f : Renumbering) : Prop where
  table : ∀ id < c.tableCount, g.table id = f.table id
  ordinal : ∀ id < c.ordinalCount, g.ordinal id = f.ordinal id

theorem AgreeOn.refl (c : Session α) (f : Renumbering) : AgreeOn c f f := ⟨fun _ _ => rfl, fun _ _ => rfl⟩

/-- What agrees on all that there is now agrees on what there was. -/
theorem AgreeOn.trans {k : Renumbering} (h : AgreeOn c g f) (hgrows : c.Grows c') (h' : AgreeOn c' k g) :
    AgreeOn c k f where
  table id hid := (h'.table id (Nat.lt_of_lt_of_le hid hgrows.tables)).trans (h.table id hid)
  ordinal id hid := (h'.ordinal id (Nat.lt_of_lt_of_le hid hgrows.ordinals)).trans (h.ordinal id hid)

end Renumbering

/-! ## Scales -/

namespace Scale

variable {f g : Renumbering} {c c' : Session α} {s : Scale α}

/-- The scale under other numbers. -/
def renumber (f : Renumbering) : Scale α → Scale α
  | .colors table domain => .colors (f.table table) domain
  | .ordinal id => .ordinal (f.ordinal id)
  | s => s

/-- The table or the growing domain of the scale is there. -/
def IsIn (c : Session α) : Scale α → Prop
  | .colors table _ => table < c.tableCount
  | .ordinal id => id < c.ordinalCount
  | _ => True

theorem IsIn.mono (h : s.IsIn c) (hgrows : c.Grows c') : s.IsIn c' := by
  cases s with
  | colors table domain => exact Nat.lt_of_lt_of_le h hgrows.tables
  | ordinal id => exact Nat.lt_of_lt_of_le h hgrows.ordinals
  | _ => trivial

/-- Only the numbers of what is there matter. -/
theorem renumber_congr (h : s.IsIn c) (hfg : g.AgreeOn c f) : s.renumber g = s.renumber f := by
  cases s with
  | colors table domain => exact congrArg (Scale.colors · domain) (hfg.table table h)
  | ordinal id => exact congrArg Scale.ordinal (hfg.ordinal id h)
  | _ => rfl

theorem renumber_same (s : Scale α) : s.renumber {} = s := by
  cases s <;> rfl

theorem renumber_renumber (s : Scale α) : (s.renumber f).renumber g = s.renumber (g.comp f) := by
  cases s <;> rfl

/-- The same scale, which is there, up to a renumbering. -/
def Renumbered (f : Renumbering) (c : Session α) (s s' : Scale α) : Prop := s.IsIn c ∧ s' = s.renumber f

theorem Renumbered.mono {s' : Scale α} (h : s.Renumbered f c s') (hfg : g.AgreeOn c f)
    (hgrows : c.Grows c') : s.Renumbered g c' s' :=
  ⟨h.1.mono hgrows, h.2.trans (renumber_congr h.1 hfg).symm⟩

/-- A scale without a part in the session has nothing to be renumbered. -/
theorem renumber_of_ne (h : ∀ table domain, s ≠ .colors table domain) (h' : ∀ id, s ≠ .ordinal id)
    (f : Renumbering) : s.renumber f = s := by
  cases s with
  | colors table domain => exact absurd rfl (h table domain)
  | ordinal id => exact absurd rfl (h' id)
  | _ => rfl

theorem isIn_of_ne (h : ∀ table domain, s ≠ .colors table domain) (h' : ∀ id, s ≠ .ordinal id)
    (c : Session α) : s.IsIn c := by
  cases s with
  | colors table domain => exact absurd rfl (h table domain)
  | ordinal id => exact absurd rfl (h' id)
  | _ => trivial

end Scale

/-- The color tables are the same up to their numbers, and so are the ordinal scales. -/
structure Session.Embeds (f : Renumbering) (c c' : Session α) : Prop where
  colors : c.colors.Embeds f.table c'.colors
  lt : ∀ id < c.ordinalCount, f.ordinal id < c'.ordinalCount
  inj : ∀ id < c.ordinalCount, ∀ id' < c.ordinalCount, f.ordinal id = f.ordinal id' → id = id'
  ordinal : ∀ id < c.ordinalCount, c'.ordinal (f.ordinal id) = c.ordinal id

namespace Session

theorem Embeds.refl {c : Session α} (h : c.colors.Consistent) : c.Embeds {} c where
  colors := .refl h
  lt _ hid := hid
  inj _ _ _ _ hsame := hsame
  ordinal _ _ := rfl

/-- One renumbering after another. -/
theorem Embeds.trans {f g : Renumbering} {c c' c'' : Session α} (h : c.Embeds f c') (h' : c'.Embeds g c'') :
    c.Embeds (g.comp f) c'' where
  colors := h.colors.trans h'.colors
  lt id hid := h'.lt (f.ordinal id) (h.lt id hid)
  inj id hid id' hid' hsame :=
    h.inj id hid id' hid' (h'.inj (f.ordinal id) (h.lt id hid) (f.ordinal id') (h.lt id' hid') hsame)
  ordinal id hid := (h'.ordinal (f.ordinal id) (h.lt id hid)).trans (h.ordinal id hid)

/-- The session with another ordinal scale in the place of one. -/
def setOrdinal (c : Session α) (id : Nat) (o : Ordinal α) : Session α :=
  { c with ordinals := c.ordinals.setIfInBounds id o }

theorem ordinalCount_setOrdinal (c : Session α) (id : Nat) (o : Ordinal α) :
    (c.setOrdinal id o).ordinalCount = c.ordinalCount :=
  Array.size_setIfInBounds

theorem ordinal_setOrdinal (c : Session α) (id id' : Nat) (o : Ordinal α) :
    (c.setOrdinal id o).ordinal id' = if id' = id ∧ id < c.ordinalCount then o else c.ordinal id' := by
  unfold ordinal setOrdinal
  dsimp only
  rw [Array.getElem?_setIfInBounds]
  by_cases hid : id = id'
  · subst hid
    by_cases hlt : id < c.ordinals.size
    · rw [if_pos rfl, if_pos hlt, if_pos ⟨rfl, hlt⟩]
      rfl
    · rw [if_pos rfl, if_neg hlt, if_neg (fun h => hlt h.2), Array.getElem?_eq_none (Nat.le_of_not_lt hlt)]
  · rw [if_neg hid, if_neg (fun h => hid h.1.symm)]

/-- An ordinal scale that is there on both sides is replaced by the same one. -/
theorem Embeds.setOrdinal {f : Renumbering} {c c' : Session α} (h : c.Embeds f c') {id : Nat}
    (hid : id < c.ordinalCount) (o : Ordinal α) :
    (c.setOrdinal id o).Embeds f (c'.setOrdinal (f.ordinal id) o) where
  colors := h.colors
  lt k hk := by
    rw [ordinalCount_setOrdinal] at hk ⊢
    exact h.lt k hk
  inj k hk k' hk' hsame := by
    rw [ordinalCount_setOrdinal] at hk hk'
    exact h.inj k hk k' hk' hsame
  ordinal k hk := by
    rw [ordinalCount_setOrdinal] at hk
    rw [ordinal_setOrdinal, ordinal_setOrdinal, h.ordinal k hk]
    by_cases hsame : k = id
    · subst hsame
      rw [if_pos ⟨rfl, h.lt k hk⟩, if_pos ⟨rfl, hk⟩]
    · rw [if_neg (fun hboth => hsame (h.inj k hk id hid hboth.1)), if_neg (fun hboth => hsame hboth.1)]

/-- The session with one more ordinal scale. -/
def pushOrdinal (c : Session α) (o : Ordinal α) : Session α := { c with ordinals := c.ordinals.push o }

theorem ordinalCount_pushOrdinal (c : Session α) (o : Ordinal α) :
    (c.pushOrdinal o).ordinalCount = c.ordinalCount + 1 :=
  Array.size_push ..

theorem ordinal_pushOrdinal (c : Session α) (id : Nat) (o : Ordinal α) :
    (c.pushOrdinal o).ordinal id = if id = c.ordinalCount then o else c.ordinal id := by
  unfold ordinal pushOrdinal ordinalCount
  dsimp only
  rw [Array.getElem?_push]
  by_cases hid : id = c.ordinals.size
  · rw [if_pos hid, if_pos hid]
    rfl
  · rw [if_neg hid, if_neg hid]

theorem grows_pushOrdinal (c : Session α) (o : Ordinal α) : c.Grows (c.pushOrdinal o) where
  tables := Nat.le_refl _
  ordinals := by
    rw [ordinalCount_pushOrdinal]
    exact Nat.le_succ _

/-- A renumbering goes on to an ordinal scale that both sessions take in. -/
theorem Embeds.pushOrdinal {f : Renumbering} {c c' : Session α} (h : c.Embeds f c') (o : Ordinal α) :
    ∃ g : Renumbering, g.AgreeOn c f ∧ g.ordinal c.ordinalCount = c'.ordinalCount ∧
      (c.pushOrdinal o).Embeds g (c'.pushOrdinal o) := by
  obtain ⟨g, htable, hself, hold⟩ : ∃ g : Renumbering, g.table = f.table ∧
      g.ordinal c.ordinalCount = c'.ordinalCount ∧ ∀ id < c.ordinalCount, g.ordinal id = f.ordinal id :=
    ⟨{ f with ordinal := Function.update f.ordinal c.ordinalCount c'.ordinalCount }, rfl,
      Function.update_self .., fun id hid => Function.update_of_ne (Nat.ne_of_lt hid) ..⟩
  have hcases : ∀ id < (c.pushOrdinal o).ordinalCount, id = c.ordinalCount ∨ id < c.ordinalCount := by
    intro id hid
    rw [ordinalCount_pushOrdinal] at hid
    omega
  refine ⟨g, ⟨fun _ _ => by rw [htable], hold⟩, hself, htable ▸ h.colors, ?_, ?_, ?_⟩
  · intro id hid
    rw [ordinalCount_pushOrdinal]
    rcases hcases id hid with rfl | hlt
    · rw [hself]
      exact Nat.lt_succ_self _
    · rw [hold id hlt]
      exact Nat.lt_succ_of_lt (h.lt id hlt)
  · intro id hid id' hid' hsame
    -- the new number on the other side is that of no ordinal scale from before
    rcases hcases id hid with rfl | hlt
    · rcases hcases id' hid' with rfl | hlt'
      · rfl
      · rw [hself, hold id' hlt'] at hsame
        exact absurd hsame.symm (Nat.ne_of_lt (h.lt id' hlt'))
    · rcases hcases id' hid' with rfl | hlt'
      · rw [hself, hold id hlt] at hsame
        exact absurd hsame (Nat.ne_of_lt (h.lt id hlt))
      · rw [hold id hlt, hold id' hlt'] at hsame
        exact h.inj id hlt id' hlt' hsame
  · intro id hid
    rw [ordinal_pushOrdinal, ordinal_pushOrdinal]
    rcases hcases id hid with rfl | hlt
    · rw [hself, if_pos rfl, if_pos rfl]
    · rw [hold id hlt, if_neg (Nat.ne_of_lt (h.lt id hlt)), if_neg (Nat.ne_of_lt hlt), h.ordinal id hlt]

/-- Two steps answer with the same value and leave the sessions the same up to the numbers. -/
def AnswerAlike (f : Renumbering) (c c' : Session α) (x x' : StateM (Session α) (Value α)) : Prop :=
  (x'.run c').1 = (x.run c).1 ∧ c.Grows (x.run c).2 ∧ (x.run c).2.Embeds f (x'.run c').2

end Session

namespace Scale

variable {f : Renumbering} {c c' : Session α} {s : Scale α}

/-- A scale maps a value to the same in both sessions. -/
theorem apply_embeds (h : c.Embeds f c') (hs : s.IsIn c) (v : Value α) :
    Session.AnswerAlike f c c' (s.apply v) ((s.renumber f).apply v) := by
  cases s with
  | colors table domain =>
    -- the table has the same content under its other number
    obtain ⟨hanswer, hcolors⟩ := h.colors.update hs fun t => t.palette_valueFor v
    have hcount := SharedTables.size_update c.colors table fun t => t.valueFor v
    exact ⟨hanswer, ⟨Nat.le_of_eq hcount.symm, Nat.le_refl _⟩, { h with colors := hcolors }⟩
  | ordinal id =>
    have hsame := h.ordinal id hs
    have hset := h.setOrdinal hs ((c.ordinal id).apply v).2
    refine ⟨congrArg (fun o : Ordinal α => (o.apply v).1) hsame,
      ⟨Nat.le_refl _, Nat.le_of_eq (c.ordinalCount_setOrdinal id _).symm⟩, ?_⟩
    show (c.setOrdinal id _).Embeds f (c'.setOrdinal (f.ordinal id) ((c'.ordinal (f.ordinal id)).apply v).2)
    rw [hsame]
    exact hset
  | _ => exact ⟨rfl, .refl c, h⟩

theorem domain_renumber (h : c.Embeds f c') (hs : s.IsIn c) :
    (s.renumber f).domain c' = s.domain c := by
  cases s with
  | ordinal id => exact congrArg (fun o : Ordinal α => o.domain.values) (h.ordinal id hs)
  | _ => rfl

theorem range_renumber (h : c.Embeds f c') (hs : s.IsIn c) :
    (s.renumber f).range c' = s.range c := by
  cases s with
  | colors table domain =>
    show (c'.colors.table (f.table table)).palette.map _ = (c.colors.table table).palette.map _
    rw [h.colors.table table hs]
  | ordinal id => exact congrArg Ordinal.range (h.ordinal id hs)
  | _ => rfl

theorem ticks_renumber (h : c.Embeds f c') (hs : s.IsIn c) (count : Nat) :
    (s.renumber f).ticks c' count = s.ticks c count := by
  have hdomain := domain_renumber h hs
  cases s with
  | continuous s => rfl
  | quantize s => rfl
  | _ => exact congrArg Except.ok hdomain

theorem bandwidth?_renumber (f : Renumbering) (s : Scale α) :
    (s.renumber f).bandwidth? = s.bandwidth? := by
  cases s <;> rfl

theorem family_renumber (f : Renumbering) (s : Scale α) : (s.renumber f).family = s.family := by
  cases s <;> rfl

end Scale

/-! ## What is made in a session -/

/-- Both succeed with results that are related, or both fail with the same problem. -/
inductive Outcome.Alike {ε β : Type} (R : β → β → Prop) : Except ε β → Except ε β → Prop
  | ok {b b' : β} (h : R b b') : Alike R (.ok b) (.ok b')
  | error (e : ε) : Alike R (.error e) (.error e)

/-- An action does the same in two sessions that are the same up to a renumbering, which may have to go on
to what is new. `Related` says of two results that they are the same up to a renumbering of what there is in
a session. -/
def Action.Embeds {β : Type} (Related : Renumbering → Session α → β → β → Prop) (x x' : Action α β)
    (f : Renumbering) (c c' : Session α) : Prop :=
  ∃ g, g.AgreeOn c f ∧ c.Grows (x.run.run c).2 ∧ (x.run.run c).2.Embeds g (x'.run.run c').2 ∧
    Outcome.Alike (Related g (x.run.run c).2) (x.run.run c).1 (x'.run.run c').1

namespace Action

variable {β γ : Type} {x : Action α β} {k k' : β → Action α γ} {b : β} {c d : Session α}

theorem run_bind_of_ok (h : x.run.run c = (.ok b, d)) : (x >>= k).run.run c = (k b).run.run d := by
  rw [ExceptT.run_bind, StateT.run_bind, h]
  rfl

theorem run_bind_eq_ok_iff {result : γ} :
    (x >>= k).run.run c = (.ok result, d) ↔
      ∃ b c', x.run.run c = (.ok b, c') ∧ (k b).run.run c' = (.ok result, d) := by
  generalize hx : x.run.run c = outcome
  obtain ⟨outcome, c'⟩ := outcome
  cases outcome with
  | ok b =>
    rw [run_bind_of_ok hx]
    refine ⟨fun h => ⟨b, c', rfl, h⟩, ?_⟩
    rintro ⟨_, _, ⟨⟩, h⟩
    exact h
  | error p =>
    rw [ExceptT.run_bind, StateT.run_bind, hx]
    constructor
    · intro h
      have hfailed : ((.error p, c') : Except (Problem α) γ × Session α) = (.ok result, d) := h
      nomatch hfailed
    · rintro ⟨_, _, hfailed, -⟩
      nomatch hfailed

/-- The same goes on from what comes to the same. -/
theorem run_bind_of_eq {x' : Action α β} (h : x.run.run c = x'.run.run c) :
    (x >>= k).run.run c = (x' >>= k).run.run c := by
  rw [ExceptT.run_bind, ExceptT.run_bind, StateT.run_bind, StateT.run_bind, h]

/-- Steps that go on alike from what they come to. -/
theorem run_bind_congr (h : ∀ b d, x.run.run c = (.ok b, d) → (k b).run.run d = (k' b).run.run d) :
    (x >>= k).run.run c = (x >>= k').run.run c := by
  rw [ExceptT.run_bind, ExceptT.run_bind, StateT.run_bind, StateT.run_bind]
  generalize hx : x.run.run c = outcome at h
  obtain ⟨outcome, d⟩ := outcome
  cases outcome with
  | ok b => exact h b d rfl
  | error p => rfl

/-- The results of a list of actions come one by one from the actions, whatever each of them starts from. -/
theorem forall₂_of_mapM {f : β → Action α γ} {bs : List β} {results : List γ}
    (h : (bs.mapM f).run.run c = (.ok results, d)) :
    List.Forall₂ (fun b result => ∃ c d, (f b).run.run c = (.ok result, d)) bs results := by
  induction bs generalizing results c with
  | nil =>
    rw [List.mapM_nil] at h
    cases h
    exact .nil
  | cons b bs ih =>
    rw [List.mapM_cons] at h
    obtain ⟨result, c', hresult, h⟩ := run_bind_eq_ok_iff.mp h
    obtain ⟨results, c'', hrest, h⟩ := run_bind_eq_ok_iff.mp h
    cases h
    exact .cons ⟨c, c', hresult⟩ (ih hrest)

end Action

namespace Action.Embeds

variable {β γ : Type} {R : Renumbering → Session α → β → β → Prop} {S : Renumbering → Session α → γ → γ → Prop}
  {x x' x'' : Action α β} {k k' : β → Action α γ} {f : Renumbering} {c c' : Session α}

theorem pure {b b' : β} (h : c.Embeds f c') (hb : R f c b b') :
    Action.Embeds R (Pure.pure b) (Pure.pure b') f c c' :=
  ⟨f, .refl c f, .refl c, h, .ok hb⟩

/-- Actions that do the same go on to do the same. -/
theorem bind (h : Action.Embeds R x x' f c c')
    (hk : ∀ g b b' d d', g.AgreeOn c f → c.Grows d → d.Embeds g d' → R g d b b' →
      Action.Embeds S (k b) (k' b') g d d') :
    Action.Embeds S (x >>= k) (x' >>= k') f c c' := by
  obtain ⟨g, hold, hgrows, hsession, halike⟩ := h
  unfold Action.Embeds
  rw [ExceptT.run_bind, ExceptT.run_bind]
  simp only [StateT.run_bind]
  generalize x.run.run c = result at hgrows hsession halike ⊢
  generalize x'.run.run c' = result' at hsession halike ⊢
  obtain ⟨outcome, d⟩ := result
  obtain ⟨outcome', d'⟩ := result'
  cases halike with
  | ok hb =>
    obtain ⟨g', hold', hgrows', hsession', halike'⟩ := hk g _ _ d d' hold hgrows hsession hb
    exact ⟨g', hold.trans hgrows hold', hgrows.trans hgrows', hsession', halike'⟩
  | error p => exact ⟨g, hold, hgrows, hsession, .error p⟩

/-- Actions that do the same as one action do the same. -/
theorem trans (hR : ∀ {g g' d d' b b' b''}, R g d b b' → R g' d' b' b'' → R (g'.comp g) d b b'')
    (h : Action.Embeds R x x' {} c c) (h' : Action.Embeds R x' x'' {} c c) :
    Action.Embeds R x x'' {} c c := by
  obtain ⟨g, hold, hgrows, hsession, halike⟩ := h
  obtain ⟨g', hold', -, hsession', halike'⟩ := h'
  refine ⟨g'.comp g, ⟨fun id hid => ?_, fun id hid => ?_⟩, hgrows, hsession.trans hsession', ?_⟩
  · show g'.table (g.table id) = id
    rw [hold.table id hid]
    exact hold'.table id hid
  · show g'.ordinal (g.ordinal id) = id
    rw [hold.ordinal id hid]
    exact hold'.ordinal id hid
  · generalize (x.run.run c).1 = outcome at halike ⊢
    generalize (x'.run.run c).1 = outcome' at halike halike'
    generalize (x''.run.run c).1 = outcome'' at halike' ⊢
    cases halike with
    | ok hb =>
      cases halike' with
      | ok hb' => exact .ok (hR hb hb')
    | error p =>
      cases halike' with
      | error p => exact .error p

/-- Actions that do the same after one step do the same with it. -/
theorem of_step {b : β} {d : Session α} (hx : x.run.run c = (.ok b, d)) (hgrows : c.Grows d)
    (h : Action.Embeds S (k b) (k' b) {} d d) : Action.Embeds S (x >>= k) (x >>= k') {} c c := by
  obtain ⟨g, hold, hgrows', hsession, halike⟩ := h
  unfold Action.Embeds
  rw [run_bind_of_ok hx, run_bind_of_ok hx]
  exact ⟨g, (Renumbering.AgreeOn.refl c {}).trans hgrows hold, hgrows.trans hgrows', hsession, halike⟩

end Action.Embeds

namespace CompleteScaleConfig

variable {f : Renumbering} {c c' : Session α} {config : CompleteScaleConfig α}

/-- A config without a shared table becomes the same scale in both sessions. -/
theorem realize_embeds_of_not_sharesColors (h : c.Embeds f c') (hshares : config.sharesColors = false) :
    Action.Embeds Scale.Renumbered config.realize config.realize f c c' := by
  have hschemes : config.plan c'.colors.schemes = config.plan c.colors.schemes := by
    rw [h.colors.schemes]
  unfold Action.Embeds
  cases hplan : config.plan c.colors.schemes with
  | error p =>
    rw [realize_of_error_of_not_sharesColors hshares hplan,
      realize_of_error_of_not_sharesColors hshares (hschemes.trans hplan)]
    exact ⟨f, .refl c f, .refl c, h, .error p⟩
  | ok plan =>
    rw [realize_of_plan hplan, realize_of_plan (hschemes.trans hplan),
      requested_of_not_sharesColors hshares, requested_of_not_sharesColors hshares]
    rcases plan_of_not_sharesColors hshares hplan with ⟨s, rfl, hne, hne'⟩ | ⟨o, rfl⟩
    · exact ⟨f, .refl c f, .refl c, h,
        .ok ⟨Scale.isIn_of_ne hne hne' _, (Scale.renumber_of_ne hne hne' f).symm⟩⟩
    · obtain ⟨g, hold, hnumber, hsession⟩ := h.pushOrdinal o
      have hin : (Scale.ordinal c.ordinalCount).IsIn (c.pushOrdinal o) := by
        show _ < (c.pushOrdinal o).ordinalCount
        rw [Session.ordinalCount_pushOrdinal]
        exact Nat.lt_succ_self _
      exact ⟨g, hold, c.grows_pushOrdinal o, hsession, .ok ⟨hin, congrArg Scale.ordinal hnumber.symm⟩⟩

/-- A config with a shared table becomes a scale on the same table in both sessions. If its domain cannot
be read, the table has been requested in both. -/
theorem realize_embeds_of_sharesColors (h : c.Embeds f c') (hshares : config.sharesColors = true) :
    Action.Embeds Scale.Renumbered config.realize config.realize f c c' := by
  have hcount := c.colors.size_le_tableFor (config.setting .scheme) (config.setting .colorGroup)
  unfold Action.Embeds
  cases hdomain : config.categories? with
  | ok domain =>
    obtain ⟨g, hold, hnumber, htables⟩ := h.colors.changeFor (config.setting .scheme)
      (config.setting .colorGroup) fun t => t.palette_preassign domain
    have hlt := h.colors.consistent.tableFor_lt (config.setting .scheme) (config.setting .colorGroup)
    rw [← SharedTables.size_changeFor _ _ _ fun t => t.preassign domain] at hcount hlt
    rw [realize_of_sharesColors hshares hdomain, realize_of_sharesColors hshares hdomain]
    exact ⟨{ f with table := g }, ⟨hold, fun _ _ => rfl⟩, ⟨hcount, Nat.le_refl _⟩, { h with colors := htables },
      .ok ⟨hlt, congrArg (Scale.colors · domain) hnumber⟩⟩
  | error p =>
    obtain ⟨g, hold, -, htables⟩ := h.colors.tableFor (config.setting .scheme)
      (config.setting .colorGroup)
    have hplan : ∀ schemes, config.plan schemes = .error p := by
      intro schemes
      rw [plan_of_sharesColors schemes hshares, hdomain]
      rfl
    rw [realize_of_error (hplan _), realize_of_error (hplan _), requested_of_sharesColors hshares,
      requested_of_sharesColors hshares]
    exact ⟨{ f with table := g }, ⟨hold, fun _ _ => rfl⟩, ⟨hcount, Nat.le_refl _⟩, { h with colors := htables },
      .error p⟩

theorem realize_embeds (h : c.Embeds f c') (config : CompleteScaleConfig α) :
    Action.Embeds Scale.Renumbered config.realize config.realize f c c' := by
  cases hshares : config.sharesColors with
  | true => exact realize_embeds_of_sharesColors h hshares
  | false => exact realize_embeds_of_not_sharesColors h hshares

end CompleteScaleConfig

/-! ## Channel encoders -/

namespace ChannelEncoder

variable {f g : Renumbering} {c c' : Session α} {e : ChannelEncoder α}

/-- The encoder with its scale under other numbers. -/
def renumber (f : Renumbering) (e : ChannelEncoder α) : ChannelEncoder α :=
  { e with scale := e.scale.map (Scale.renumber f) }

/-- The table or the growing domain of the scale is there. -/
def IsIn (c : Session α) (e : ChannelEncoder α) : Prop := ∀ s, e.scale = some s → s.IsIn c

theorem IsIn.mono (h : e.IsIn c) (hgrows : c.Grows c') : e.IsIn c' := fun s hs => (h s hs).mono hgrows

theorem renumber_congr (h : e.IsIn c) (hfg : g.AgreeOn c f) : e.renumber g = e.renumber f := by
  unfold renumber
  cases hscale : e.scale with
  | none => rfl
  | some s =>
    rw [Option.map_some, Option.map_some, Scale.renumber_congr (h s hscale) hfg]

theorem renumber_same (e : ChannelEncoder α) : e.renumber {} = e := by
  obtain ⟨name, role, definition, scale, formatter, isLocal⟩ := e
  cases scale with
  | none => rfl
  | some s => rw [renumber, Option.map_some, Scale.renumber_same]

theorem renumber_renumber (e : ChannelEncoder α) : (e.renumber f).renumber g = e.renumber (g.comp f) := by
  obtain ⟨name, role, definition, scale, formatter, isLocal⟩ := e
  cases scale with
  | none => rfl
  | some s =>
    unfold renumber
    dsimp only
    rw [Option.map_some, Option.map_some, Option.map_some, Scale.renumber_renumber]

/-- The same encoder, whose scale is there, up to a renumbering. -/
def Renumbered (f : Renumbering) (c : Session α) (e e' : ChannelEncoder α) : Prop :=
  e.IsIn c ∧ e' = e.renumber f

theorem Renumbered.mono {e' : ChannelEncoder α} (h : e.Renumbered f c e') (hfg : g.AgreeOn c f)
    (hgrows : c.Grows c') : e.Renumbered g c' e' :=
  ⟨h.1.mono hgrows, h.2.trans (renumber_congr h.1 hfg).symm⟩

theorem Renumbered.trans {e' e'' : ChannelEncoder α} (h : e.Renumbered f c e') (h' : e'.Renumbered g c' e'') :
    e.Renumbered (g.comp f) c e'' := by
  obtain ⟨hin, rfl⟩ := h
  obtain ⟨-, rfl⟩ := h'
  exact ⟨hin, e.renumber_renumber⟩

/-- A definition becomes the same encoder in both sessions. -/
theorem ofComplete_embeds (h : c.Embeds f c') (name : String) (role : ChannelRole)
    (d : CompleteChannelDef α) (isLocal : Bool) :
    Action.Embeds Renumbered (ofComplete name role d isLocal) (ofComplete name role d isLocal) f c c' := by
  cases hscale : d.scale? with
  | none =>
    unfold Action.Embeds
    rw [ofComplete_of_none hscale, ofComplete_of_none hscale]
    exact ⟨f, .refl c f, .refl c, h, .ok ⟨nofun, rfl⟩⟩
  | some config =>
    obtain ⟨g, hold, hcount, hsession, halike⟩ := CompleteScaleConfig.realize_embeds h config
    unfold Action.Embeds
    rw [ofComplete_of_some hscale, ofComplete_of_some hscale]
    refine ⟨g, hold, hcount, hsession, ?_⟩
    dsimp only
    generalize (config.realize.run.run c).1 = outcome at halike ⊢
    generalize (config.realize.run.run c').1 = outcome' at halike ⊢
    cases halike with
    | ok hrelated =>
      obtain ⟨hin, rfl⟩ := hrelated
      refine .ok ⟨?_, rfl⟩
      rintro s ⟨⟩
      exact hin
    | error p => exact .error p

/-- Fitted to a dataset, the same encoder becomes the same in both sessions. -/
theorem fit_embeds (h : c.Embeds f c') (he : e.IsIn c) (dataset : List (Datum α)) :
    Action.Embeds Renumbered (e.fit dataset) ((e.renumber f).fit dataset) f c c' := by
  have hsame : (e.renumber f).definition.fitted? dataset = e.definition.fitted? dataset := rfl
  cases hfitted : e.definition.fitted? dataset with
  | some d =>
    rw [fit_of_fitted hfitted, fit_of_fitted (hsame.trans hfitted)]
    exact ofComplete_embeds h e.name e.role d e.isLocal
  | none =>
    rw [fit_of_not_fitted hfitted, fit_of_not_fitted (hsame.trans hfitted)]
    exact ⟨f, .refl c f, .refl c, h, .ok ⟨he, rfl⟩⟩

/-- An encoder maps a value to the same in both sessions. -/
theorem encodeValue_embeds (h : c.Embeds f c') (he : e.IsIn c) (v : Value α) :
    Session.AnswerAlike f c c' (e.encodeValue v) ((e.renumber f).encodeValue v) := by
  unfold encodeValue renumber
  dsimp only
  cases hscale : e.scale with
  | some s => exact Scale.apply_embeds h (he s hscale) v
  | none => exact ⟨rfl, .refl c, h⟩

theorem encodeDatum_of_isNull {datum : Datum α} (hv : (e.definition.valueIn datum).isNull = true)
    (fallback : Value α) (c : Session α) : (e.encodeDatum datum fallback).run c = (fallback, c) := by
  unfold encodeDatum
  dsimp only
  rw [if_pos hv]
  rfl

theorem encodeDatum_of_not_isNull {datum : Datum α} (hv : (e.definition.valueIn datum).isNull = false)
    (fallback : Value α) (c : Session α) :
    (e.encodeDatum datum fallback).run c
      = (if ((e.encodeValue (e.definition.valueIn datum)).run c).1.isNull then fallback
          else ((e.encodeValue (e.definition.valueIn datum)).run c).1,
        ((e.encodeValue (e.definition.valueIn datum)).run c).2) := by
  unfold encodeDatum
  dsimp only
  rw [if_neg (by rw [hv]; exact Bool.false_ne_true)]
  rfl

/-- An encoder maps a record to the same in both sessions. -/
theorem encodeDatum_embeds (h : c.Embeds f c') (he : e.IsIn c) (datum : Datum α)
    (fallback : Value α) :
    Session.AnswerAlike f c c' (e.encodeDatum datum fallback)
      ((e.renumber f).encodeDatum datum fallback) := by
  have hvalueIn : (e.renumber f).definition.valueIn datum = e.definition.valueIn datum := rfl
  cases hv : (e.definition.valueIn datum).isNull with
  | true =>
    unfold Session.AnswerAlike
    rw [encodeDatum_of_isNull hv, encodeDatum_of_isNull (hvalueIn ▸ hv)]
    exact ⟨rfl, .refl c, h⟩
  | false =>
    obtain ⟨hanswer, hcount, hsession⟩ := encodeValue_embeds h he (e.definition.valueIn datum)
    unfold Session.AnswerAlike
    rw [encodeDatum_of_not_isNull hv, encodeDatum_of_not_isNull (hvalueIn ▸ hv), hvalueIn, hanswer]
    exact ⟨rfl, hcount, hsession⟩

end ChannelEncoder

end VisualEncoding
