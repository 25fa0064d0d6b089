import VisualEncoding.Proofs.Answers
import VisualEncoding.Proofs.Color.Table
import VisualEncoding.Proofs.Value.Categories
import VisualEncoding.Scalar.Double

/-!
# Colors in turn

A table that starts empty and is only asked for colors, or is given the colors of a domain, has nothing in
it but categories in the order of their first mention, with the colors of the palette in turn. That is the
table `ColorTable.inTurn`, of which two things are shown: how one gets there (`foldl_colorFor`,
`preassign_fresh`), and that a look-up takes it to the same with one category more (`colorFor_inTurn`).

An ordinal scale over the colors of a palette goes through the same categories, so

> `answers_ofList_eq_preassign`: it answers like a table with that palette that is given its domain.
-/

namespace VisualEncoding

variable {α : Type} [Scalar α]

namespace ColorTable

variable {palette : List String} {c : Categories α} {v : Value α} {key : String}

/-- The color of a place; no text if there is no palette. -/
def colorAt (palette : List String) (i : Nat) : String := (palette[i % palette.length]?).getD ""

/-- The table that gives categories the colors of a palette in turn. -/
def inTurn (palette : List String) (c : Categories α) : ColorTable where
  palette := palette
  assigned := c.values.zipIdx.map fun (v, i) => (v.key, colorAt palette i)

/-- Every place has a color of the palette. -/
theorem getElem?_eq_colorAt (h : palette ≠ []) (i : Nat) :
    palette[i % palette.length]? = some (colorAt palette i) := by
  have hlt : i % palette.length < palette.length := Nat.mod_lt _ (List.length_pos_iff.mpr h)
  unfold colorAt
  rw [List.getElem?_eq_getElem hlt]
  rfl

/-! ## Look-ups -/

theorem color?_inTurn (palette : List String) (c : Categories α) (key : String) :
    (inTurn palette c).color? key = (c.position? key).map (colorAt palette) := by
  have h := Categories.lookup_map_zipIdx (colorAt palette) key c.values 0
  simp only [Nat.zero_add] at h
  exact h

theorem nextColor?_inTurn (h : palette ≠ []) (c : Categories α) :
    (inTurn palette c).nextColor? = some (colorAt palette c.size) := by
  have hlength : (inTurn palette c).assigned.length = c.size := by simp [inTurn, Categories.size]
  unfold nextColor?
  rw [hlength]
  exact getElem?_eq_colorAt h c.size

/-- A key without a color is put at the end. -/
theorem assign_of_lookup_eq_none {key color : String} {assigned : List (String × String)}
    (h : assigned.lookup key = none) : assign key color assigned = assigned ++ [(key, color)] := by
  induction assigned with
  | nil => rfl
  | cons entry rest ih =>
    obtain ⟨k, c⟩ := entry
    have hk : k ≠ key := by
      rintro rfl
      rw [List.lookup_cons_self] at h
      nomatch h
    rw [lookup_cons_of_ne (Ne.symm hk)] at h
    unfold assign
    rw [if_neg (by simpa using hk), ih h]
    rfl

/-- A new category takes the color of the next place. -/
theorem inTurn_insert_of_new (palette : List String) (h : c.position? v.key = none) :
    inTurn palette (c.insert v)
      = { palette
          assigned := (inTurn palette c).assigned ++ [(v.key, colorAt palette c.size)] } := by
  unfold inTurn
  rw [Categories.values_insert_of_new h, List.zipIdx_append, List.map_append]
  simp [Categories.size]

/-- **A look-up goes on in turn.** The color is that of the place of the category, which is the next place
if the category is new. -/
theorem colorFor_inTurn (h : palette ≠ []) (c : Categories α) (v : Value α) :
    (inTurn palette c).colorFor v
      = (colorAt palette ((c.position? v.key).getD c.size), inTurn palette (c.insert v)) := by
  unfold colorFor colorOfKey
  rw [color?_inTurn]
  cases hplace : c.position? v.key with
  | some i =>
    rw [Categories.insert_of_position? hplace]
    rfl
  | none =>
    have hnew : (inTurn palette c).assigned.lookup v.key = none := by
      have hcolor := color?_inTurn palette c v.key
      rw [hplace] at hcolor
      exact hcolor
    dsimp only [Option.map_none]
    rw [nextColor?_inTurn h, inTurn_insert_of_new palette hplace]
    dsimp only
    rw [assign_of_lookup_eq_none hnew]
    rfl

/-- Look-ups in a row insert their values in a row. -/
theorem foldl_colorFor_inTurn (h : palette ≠ []) (vs : List (Value α)) (c : Categories α) :
    vs.foldl (fun t v => (t.colorFor v).2) (inTurn palette c)
      = inTurn palette (vs.foldl Categories.insert c) := by
  induction vs generalizing c with
  | nil => rfl
  | cons v vs ih =>
    rw [List.foldl_cons, List.foldl_cons, colorFor_inTurn h]
    exact ih (c.insert v)

/-- A table that was only looked up has the categories of all that was asked for. -/
theorem foldl_colorFor (h : palette ≠ []) (vs : List (Value α)) :
    vs.foldl (fun t v => (t.colorFor v).2) { palette } = inTurn palette (.ofList vs) :=
  foldl_colorFor_inTurn h vs .empty

/-! ## Domains -/

/-- Values with distinct keys that have no color yet are given the colors of the places from the `n`-th on,
and stand after what is there. -/
theorem foldl_give_of_new (values : List (Value α)) (n : Nat) {t : ColorTable} (h : t.palette ≠ [])
    (hnodup : (values.map Value.key).Nodup) (hnew : ∀ v ∈ values, t.color? v.key = none) :
    (values.zipIdx n).foldl give t
      = { t with
          assigned := t.assigned ++ (values.zipIdx n).map fun (v, i) => (v.key, colorAt t.palette i) } := by
  induction values generalizing n t with
  | nil => simp
  | cons v values ih =>
    obtain ⟨hv, hrest⟩ := List.nodup_cons.mp hnodup
    have hgive : t.give (v, n)
        = { t with assigned := t.assigned ++ [(v.key, colorAt t.palette n)] } := by
      unfold give setColor
      dsimp only
      rw [getElem?_eq_colorAt h n]
      dsimp only
      rw [assign_of_lookup_eq_none (hnew v (List.mem_cons_self ..))]
    -- the rest is still without a color, because no key occurs twice
    have hnew' : ∀ w ∈ values, (t.give (v, n)).color? w.key = none := by
      intro w hw
      have hne : w.key ≠ v.key := fun hsame => hv (hsame ▸ List.mem_map_of_mem hw)
      rw [hgive]
      unfold color?
      dsimp only
      rw [List.lookup_append]
      have hold := hnew w (List.mem_cons_of_mem v hw)
      unfold color? at hold
      rw [hold, Option.none_or]
      exact lookup_cons_of_ne hne
    rw [List.zipIdx_cons, List.foldl_cons, ih (n + 1) (by rw [palette_give]; exact h) hrest hnew',
      hgive]
    simp

/-- A fresh table that is given the colors of a domain has that domain in turn. -/
theorem preassign_fresh (h : palette ≠ []) (c : Categories α) :
    ({ palette } : ColorTable).preassign c = inTurn palette c := by
  rw [preassign_eq_foldl, foldl_give_of_new c.values 0 h c.keys_nodup (fun _ _ => rfl)]
  rfl

theorem valueFor_inTurn (h : palette ≠ []) (c : Categories α) (hv : v.isNull = false) :
    (inTurn palette c).valueFor v
      = (.string (colorAt palette ((c.position? v.key).getD c.size)), inTurn palette (c.insert v)) := by
  rw [valueFor_of_not_isNull hv]
  exact congrArg (fun p => (Value.string p.1, p.2)) (colorFor_inTurn h c v)

end ColorTable

/-! ## Ordinal scales over a palette -/

namespace Ordinal

variable {palette : List String} {v : Value α}

/-- The entry for a value is that of its place, which is the next place if its category is new. -/
theorem apply_eq (s : Ordinal α) (v : Value α) :
    s.apply v = (s.slot ((s.domain.position? v.key).getD s.domain.size),
      { s with domain := s.domain.insert v }) := by
  unfold apply
  cases hplace : s.domain.position? v.key with
  | some i =>
    rw [Categories.insert_of_position? hplace]
    rfl
  | none => rfl

/-- The entries of a palette are its colors as values. -/
theorem slot_of_palette (h : palette ≠ []) (c : Categories α) (i : Nat) :
    ({ domain := c, range := palette.map .string } : Ordinal α).slot i
      = .string (ColorTable.colorAt palette i) := by
  unfold slot
  dsimp only
  rw [List.length_map, List.getElem?_map, ColorTable.getElem?_eq_colorAt h i]
  rfl

/-- The scale and the table have the same categories and give them the colors of a palette in turn. -/
def Mirrors (palette : List String) (s : Ordinal α) (t : ColorTable) : Prop :=
  s.range = palette.map .string ∧ t = .inTurn palette s.domain

/-- Both give a value the same color, and have the same categories again. -/
theorem Mirrors.apply (hpalette : palette ≠ []) (hv : v.isNull = false) {s : Ordinal α} {t : ColorTable}
    (h : s.Mirrors palette t) :
    (s.apply v).1 = (t.valueFor v).1 ∧ (s.apply v).2.Mirrors palette (t.valueFor v).2 := by
  obtain ⟨domain, range⟩ := s
  obtain ⟨hrange, ht⟩ := h
  dsimp only at hrange ht
  subst hrange ht
  rw [apply_eq, slot_of_palette hpalette, ColorTable.valueFor_inTurn hpalette domain hv]
  exact ⟨rfl, rfl, rfl⟩

/-- A fresh table that is given the domain of the scale. -/
theorem mirrors_ofList (hpalette : palette ≠ []) (domain : List (Value α)) :
    (ofList domain (palette.map .string)).Mirrors palette
      (({ palette } : ColorTable).preassign (.ofList domain)) :=
  ⟨rfl, ColorTable.preassign_fresh hpalette _⟩

/-- **Two ways to color categories.** An ordinal scale over the colors of a palette and a fresh table with
that palette, given the same domain, answer alike to values in a row. Missing values are left out: the
scale takes them for a category, and the table has no color for them. -/
theorem answers_ofList_eq_preassign (hpalette : palette ≠ []) (domain : List (Value α))
    {vs : List (Value α)} (hvs : ∀ v ∈ vs, v.isNull = false) :
    answers apply (ofList domain (palette.map .string)) vs
      = answers ColorTable.valueFor (({ palette } : ColorTable).preassign (.ofList domain)) vs :=
  answers_eq (fun _ _ _ hv hmirrors => hmirrors.apply hpalette hv) hvs
    (mirrors_ofList hpalette domain)

/-- Two colors for a domain with a missing value and a repeated one, and then for a number and its text. -/
theorem answers_ofList_eq_preassign_numberAndText :
    answers apply (ofList [.string "b", .null, .string "b"] (["red", "blue"].map .string))
        [.string "b", .number (1 : Float), .string "1", .string "null"]
      = answers ColorTable.valueFor
        (({ palette := ["red", "blue"] } : ColorTable).preassign
          (.ofList [.string "b", .null, (.string "b" : Value Float)]))
        [.string "b", .number (1 : Float), .string "1", .string "null"] :=
  answers_ofList_eq_preassign (List.cons_ne_nil _ _) _ (by simp [Value.isNull])

end Ordinal

end VisualEncoding
