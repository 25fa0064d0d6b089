import Mathlib.Data.List.Forall2

/-!
# Steps that may fail

A chain of steps fails with the problem of its first step that fails. These are the inversions that read
a chain from its end: what it takes to succeed, and where a problem can come from.
-/

namespace VisualEncoding.Outcome

variable {ε β γ : Type}

/-- A chain succeeds if both of its parts do. -/
theorem bind_eq_ok_iff {x : Except ε β} {f : β → Except ε γ} {c : γ} :
    x >>= f = .ok c ↔ ∃ b, x = .ok b ∧ f b = .ok c := by
  cases x <;> simp [bind, Except.bind]

/-- A step that goes on without fail succeeds if it does itself. -/
theorem exists_bind_pure_iff {x : Except ε β} {f : β → γ} :
    (∃ c, (x >>= fun b => pure (f b)) = .ok c) ↔ ∃ b, x = .ok b := by
  cases x <;> simp [bind, Except.bind, pure, Except.pure]

theorem map_eq_ok_iff {x : Except ε β} {f : β → γ} {c : γ} :
    x.map f = .ok c ↔ ∃ b, x = .ok b ∧ f b = c := by
  cases x <;> simp [Except.map]

theorem map_eq_error_iff {x : Except ε β} {f : β → γ} {e : ε} :
    x.map f = .error e ↔ x = .error e := by
  cases x <;> simp [Except.map]

/-- A chain fails if one of its parts does. -/
theorem bind_eq_error_iff {x : Except ε β} {f : β → Except ε γ} {e : ε} :
    x >>= f = .error e ↔ x = .error e ∨ ∃ b, x = .ok b ∧ f b = .error e := by
  cases x <;> simp [bind, Except.bind]

theorem mapError_eq_ok_iff {ε' : Type} {x : Except ε β} {f : ε → ε'} {b : β} :
    x.mapError f = .ok b ↔ x = .ok b := by
  cases x <;> simp [Except.mapError]

/-- A list of steps succeeds if each of them does, with their results in order. -/
theorem mapM_eq_ok_iff {f : β → Except ε γ} {l : List β} {cs : List γ} :
    l.mapM f = .ok cs ↔ List.Forall₂ (fun b c => f b = .ok c) l cs := by
  induction l generalizing cs with
  | nil =>
    rw [List.mapM_nil, List.forall₂_nil_left_iff]
    exact ⟨fun h => (Except.ok.inj h).symm, fun h => congrArg _ h.symm⟩
  | cons b l ih =>
    rw [List.mapM_cons, bind_eq_ok_iff]
    constructor
    · rintro ⟨c, hc, hrest⟩
      obtain ⟨rest, hl, hpure⟩ := bind_eq_ok_iff.mp hrest
      cases hpure
      exact List.Forall₂.cons hc (ih.mp hl)
    · intro h
      cases h with
      | cons hc hl => exact ⟨_, hc, bind_eq_ok_iff.mpr ⟨_, ih.mpr hl, rfl⟩⟩

/-- A list of steps fails with the problem of one of them. -/
theorem exists_of_mapM_eq_error {f : β → Except ε γ} {l : List β} {e : ε} (h : l.mapM f = .error e) :
    ∃ b ∈ l, f b = .error e := by
  induction l with
  | nil =>
    rw [List.mapM_nil] at h
    nomatch h
  | cons b l ih =>
    rw [List.mapM_cons] at h
    rcases bind_eq_error_iff.mp h with hb | ⟨c, -, hrest⟩
    · exact ⟨b, List.mem_cons_self, hb⟩
    · rcases bind_eq_error_iff.mp hrest with hl | ⟨_, -, hpure⟩
      · obtain ⟨b', hb', he⟩ := ih hl
        exact ⟨b', List.mem_cons_of_mem _ hb', he⟩
      · nomatch hpure

/-- The same of steps that may have no result. -/
theorem forall₂_of_mapM_eq_some {f : β → Option γ} {l : List β} {cs : List γ}
    (h : l.mapM f = some cs) : List.Forall₂ (fun b c => f b = some c) l cs := by
  induction l generalizing cs with
  | nil =>
    rw [List.mapM_nil] at h
    cases h
    exact List.Forall₂.nil
  | cons b l ih =>
    rw [List.mapM_cons] at h
    obtain ⟨c, hc, hrest⟩ := Option.bind_eq_some_iff.mp h
    obtain ⟨rest, hl, hpure⟩ := Option.bind_eq_some_iff.mp hrest
    cases hpure
    exact List.Forall₂.cons hc (ih hl)

theorem mapM_eq_some_of_forall₂ {f : β → Option γ} {l : List β} {cs : List γ}
    (h : List.Forall₂ (fun b c => f b = some c) l cs) : l.mapM f = some cs := by
  induction h with
  | nil => rw [List.mapM_nil]; rfl
  | cons hc _ ih => rw [List.mapM_cons, hc, ih]; rfl

/-- Every result has a source. -/
theorem exists_mem_of_forall₂ {R : β → γ → Prop} {l : List β} {cs : List γ} {c : γ}
    (h : List.Forall₂ R l cs) (hc : c ∈ cs) : ∃ b ∈ l, R b c := by
  induction h with
  | nil => nomatch hc
  | cons hb _ ih =>
    rcases List.mem_cons.mp hc with rfl | hc
    · exact ⟨_, List.mem_cons_self, hb⟩
    · obtain ⟨b, hb, hR⟩ := ih hc
      exact ⟨b, List.mem_cons_of_mem _ hb, hR⟩

/-- Results that are the sources of the list one by one make up its source. -/
theorem eq_map_of_forall₂ {f : γ → β} {l : List β} {cs : List γ}
    (h : List.Forall₂ (fun b c => b = f c) l cs) : l = cs.map f := by
  rw [← List.forall₂_eq_eq_eq]
  exact List.forall₂_map_right_iff.mpr h

/-- Whether a list of steps succeeds does not depend on their order. -/
theorem exists_mapM_eq_ok_iff {f : β → Except ε γ} {l : List β} :
    (∃ cs, l.mapM f = .ok cs) ↔ ∀ b ∈ l, ∃ c, f b = .ok c := by
  induction l with
  | nil => exact ⟨fun _ b hb => absurd hb (List.not_mem_nil), fun _ => ⟨[], rfl⟩⟩
  | cons b l ih =>
    rw [List.forall_mem_cons, ← ih]
    constructor
    · rintro ⟨cs, hcs⟩
      cases mapM_eq_ok_iff.mp hcs with
      | cons hc hl => exact ⟨⟨_, hc⟩, _, mapM_eq_ok_iff.mpr hl⟩
    · rintro ⟨⟨c, hc⟩, cs, hl⟩
      exact ⟨c :: cs, mapM_eq_ok_iff.mpr (List.Forall₂.cons hc (mapM_eq_ok_iff.mp hl))⟩

end VisualEncoding.Outcome
