import VisualEncoding.Proofs.Value.Categories
import VisualEncoding.Scale.Ordinal

/-!
# The color of a key

A table is asked for one key at a time and may change each time it is asked, so a color that was given
out is worth something only if it stays. `ColorTable.settled?` is the color of a key that a look-up can no
longer change: the one that was assigned, or no text where there is no palette and so never will be one.

Each operation on a table is described by what it does to the settled colors. A look-up settles the key
that is asked for and no other (`settled?_colorOfKey`), a pin settles its value (`settled?_setColor`), and
a domain settles each of its values on the color of its place:

> `settled?_preassign`: a value of the domain has the color of its place, all others are as before.
-/

namespace VisualEncoding

namespace ColorTable

variable {α : Type} [Scalar α] {t : ColorTable} {key k color : String}

/-- The color of a key that a look-up does not change any more. -/
def settled? (t : ColorTable) (key : String) : Option String :=
  (t.color? key).or (if t.palette = [] then some "" else none)

/-- The color that a palette has for a key as a member of a domain, by its place. -/
def paletteColor? (palette : List String) (domain : Categories α) (key : String) : Option String :=
  (domain.position? key).bind fun i => palette[i % palette.length]?

/-! ## Assigned colors -/

theorem lookup_assign (key color k : String) (assigned : List (String × String)) :
    (assign key color assigned).lookup k = if k = key then some color else assigned.lookup k := by
  induction assigned with
  | nil =>
    by_cases hk : k = key
    · rw [if_pos hk, hk]
      exact List.lookup_cons_self
    · rw [if_neg hk]
      exact lookup_cons_of_ne hk
  | cons entry rest ih =>
    obtain ⟨k', c⟩ := entry
    unfold assign
    by_cases hkey : k' = key
    · -- the entry of the key is replaced where it stands
      subst hkey
      rw [if_pos (beq_self_eq_true k')]
      by_cases hk : k = k'
      · rw [if_pos hk, hk]
        exact List.lookup_cons_self
      · rw [if_neg hk, lookup_cons_of_ne hk, lookup_cons_of_ne hk]
    · rw [if_neg (by simpa using hkey)]
      by_cases hk : k = k'
      · subst hk
        rw [if_neg hkey, List.lookup_cons_self, List.lookup_cons_self]
      · rw [lookup_cons_of_ne hk, lookup_cons_of_ne hk, ih]

/-- A table with a palette has a color for every new key. -/
theorem exists_nextColor? (h : t.palette ≠ []) : ∃ color, t.nextColor? = some color := by
  have hlt : t.assigned.length % t.palette.length < t.palette.length :=
    Nat.mod_lt _ (List.length_pos_iff.mpr h)
  exact ⟨_, List.getElem?_eq_getElem hlt⟩

theorem nextColor?_of_palette_eq_nil (h : t.palette = []) : t.nextColor? = none := by
  unfold nextColor?
  rw [h]
  rfl

/-! ## Look-ups -/

/-- Asking for a key does not change the palette. -/
theorem palette_colorOfKey (t : ColorTable) (key : String) :
    (t.colorOfKey key).2.palette = t.palette := by
  unfold colorOfKey
  cases t.color? key with
  | some color => rfl
  | none => cases t.nextColor? <;> rfl

/-- A settled key is answered with its color, and the table stays as it is. -/
theorem colorOfKey_of_settled (h : t.settled? key = some color) :
    t.colorOfKey key = (color, t) := by
  unfold settled? at h
  unfold colorOfKey
  cases hcolor : t.color? key with
  | some c =>
    rw [hcolor] at h
    cases h
    rfl
  | none =>
    rw [hcolor, Option.none_or] at h
    -- without a color the key is settled only where there are none to give
    by_cases hpalette : t.palette = []
    · rw [if_pos hpalette] at h
      cases h
      rw [nextColor?_of_palette_eq_nil hpalette]
    · rw [if_neg hpalette] at h
      nomatch h

/-- The settled colors of a table with another assignment. -/
theorem settled?_assign (t : ColorTable) (key color k : String) :
    ({ t with assigned := assign key color t.assigned } : ColorTable).settled? k
      = if k = key then some color else t.settled? k := by
  unfold settled? color?
  dsimp only
  rw [lookup_assign]
  by_cases hk : k = key
  · rw [if_pos hk, if_pos hk]
    rfl
  · rw [if_neg hk, if_neg hk]

/-- A look-up settles the key that is asked for on the color that is answered, and no other key. -/
theorem settled?_colorOfKey (t : ColorTable) (key k : String) :
    (t.colorOfKey key).2.settled? k
      = if k = key then some (t.colorOfKey key).1 else t.settled? k := by
  cases hsettled : t.settled? key with
  | some color =>
    rw [colorOfKey_of_settled hsettled]
    by_cases hk : k = key
    · rw [if_pos hk, hk, hsettled]
    · rw [if_neg hk]
  | none =>
    -- the key has no color yet, and there is a palette to take one from
    obtain ⟨hcolor, hnone⟩ := Option.or_eq_none_iff.mp hsettled
    have hpalette : t.palette ≠ [] := by
      intro hnil
      rw [if_pos hnil] at hnone
      nomatch hnone
    obtain ⟨color, hnext⟩ := exists_nextColor? hpalette
    have hlookup : t.colorOfKey key
        = (color, { t with assigned := assign key color t.assigned }) := by
      unfold colorOfKey
      rw [hcolor, hnext]
    rw [hlookup]
    exact settled?_assign t key color k

/-- **Settled colors stay.** No look-up changes a settled color. -/
theorem settled?_colorOfKey_of_settled (key : String) (h : t.settled? k = some color) :
    (t.colorOfKey key).2.settled? k = some color := by
  rw [settled?_colorOfKey]
  by_cases hk : k = key
  · subst hk
    rw [if_pos rfl, colorOfKey_of_settled h]
  · rw [if_neg hk, h]

/-- A value that is not missing is looked up by its key. -/
theorem valueFor_of_not_isNull {v : Value α} (hv : v.isNull = false) :
    t.valueFor v = (.string (t.colorOfKey v.key).1, (t.colorOfKey v.key).2) := by
  unfold valueFor
  rw [if_neg (by rw [hv]; exact Bool.false_ne_true)]
  rfl

theorem palette_valueFor (t : ColorTable) (v : Value α) : (t.valueFor v).2.palette = t.palette := by
  cases hv : v.isNull with
  | true =>
    unfold valueFor
    rw [if_pos hv]
  | false =>
    rw [valueFor_of_not_isNull hv]
    exact palette_colorOfKey t v.key

theorem settled?_valueFor_of_settled (v : Value α) (h : t.settled? k = some color) :
    (t.valueFor v).2.settled? k = some color := by
  cases hv : v.isNull with
  | true =>
    unfold valueFor
    rw [if_pos hv]
    exact h
  | false =>
    rw [valueFor_of_not_isNull hv]
    exact settled?_colorOfKey_of_settled v.key h

/-! ## Pins and domains -/

/-- A pin settles its value, whatever color that had before. -/
theorem settled?_setColor (t : ColorTable) (v : Value α) (color k : String) :
    (t.setColor v color).settled? k = if k = v.key then some color else t.settled? k :=
  settled?_assign t v.key color k

/-- Gives a value the color of a place. -/
def give (t : ColorTable) (entry : Value α × Nat) : ColorTable :=
  match t.palette[entry.2 % t.palette.length]? with
  | some color => t.setColor entry.1 color
  | none => t

theorem preassign_eq_foldl (t : ColorTable) (domain : Categories α) :
    t.preassign domain = domain.values.zipIdx.foldl give t :=
  rfl

theorem palette_give (t : ColorTable) (entry : Value α × Nat) :
    (t.give entry).palette = t.palette := by
  unfold give
  split <;> rfl

theorem settled?_give (t : ColorTable) (entry : Value α × Nat) (k : String) :
    (t.give entry).settled? k
      = if k = entry.1.key then (t.palette[entry.2 % t.palette.length]?).or (t.settled? k)
        else t.settled? k := by
  unfold give
  cases t.palette[entry.2 % t.palette.length]? with
  | some color => exact settled?_setColor t entry.1 color k
  | none => exact (ite_self _).symm

theorem palette_foldl_give (entries : List (Value α × Nat)) (t : ColorTable) :
    (entries.foldl give t).palette = t.palette := by
  induction entries generalizing t with
  | nil => rfl
  | cons entry entries ih => exact (ih (t.give entry)).trans (palette_give t entry)

/-- Values with distinct keys, given the colors of the places from the `n`-th on. The induction is on the
values; a key that occurs first does not occur again. -/
theorem settled?_foldl_give (values : List (Value α)) (n : Nat) (t : ColorTable)
    (hnodup : (values.map Value.key).Nodup) :
    ((values.zipIdx n).foldl give t).settled? k
      = ((values.findIdx? fun v => v.key == k).bind fun i =>
          t.palette[(n + i) % t.palette.length]?).or (t.settled? k) := by
  induction values generalizing n t with
  | nil => rfl
  | cons v values ih =>
    obtain ⟨hv, hrest⟩ := List.nodup_cons.mp hnodup
    rw [List.zipIdx_cons, List.foldl_cons, ih (n + 1) (t.give (v, n)) hrest, palette_give,
      settled?_give, List.findIdx?_cons]
    dsimp only
    by_cases hk : k = v.key
    · -- the key is given its color here, and the rest leaves it alone
      have hnone : values.findIdx? (fun v => v.key == k) = none := by
        rw [List.findIdx?_eq_none_iff]
        intro w hw
        rw [beq_eq_false_iff_ne]
        intro hwk
        exact hv (List.mem_map.mpr ⟨w, hw, hwk.trans hk⟩)
      rw [hnone, if_pos hk, if_pos (by simpa using hk.symm)]
      rfl
    · -- the places of the rest are counted from the next one on
      rw [if_neg hk, if_neg (by simpa using fun h => hk h.symm)]
      cases values.findIdx? (fun v => v.key == k) with
      | none => rfl
      | some i =>
        show (t.palette[(n + 1 + i) % t.palette.length]?).or _
          = (t.palette[(n + (i + 1)) % t.palette.length]?).or _
        rw [show n + 1 + i = n + (i + 1) by omega]

theorem palette_preassign (t : ColorTable) (domain : Categories α) :
    (t.preassign domain).palette = t.palette := by
  rw [preassign_eq_foldl]
  exact palette_foldl_give _ t

/-- **A domain settles its values** on the colors of their places, whatever they had before. -/
theorem settled?_preassign (t : ColorTable) (domain : Categories α) (k : String) :
    (t.preassign domain).settled? k = (paletteColor? t.palette domain k).or (t.settled? k) := by
  rw [preassign_eq_foldl, settled?_foldl_give domain.values 0 t domain.keys_nodup]
  simp only [Nat.zero_add]
  rfl

end ColorTable

end VisualEncoding
