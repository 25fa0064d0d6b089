import VisualEncoding.Proofs.Scalar.Extended
import VisualEncoding.Proofs.Scale.BandLayout
import VisualEncoding.Scale.LaidBands

/-!
# Kept layouts

A layout that is kept beside the parameters is worth something only if no change leaves it behind. Bands that are laid
out are *current* if their layout and their places are those of their parameters (`LaidBands.current`). New bands are,
and each change takes current bands to current bands (`change_current`), so after any sequence of changes nothing is
known but the parameters.

Which parameters these are is said without running the changes: looking back from the last one, each parameter is the
one that was last set, and the ends of the range are swapped once for each reversal since then (`Band.inForce`).

> `after_never_stale`: the layout after changes is that of the parameters in force. Whatever other changes end with the
> same parameters leave the same layout and the same answers, there is one position for each category, and there is an
> answer for the keys of the domain and no others.
-/

namespace VisualEncoding

variable {α : Type} [Scalar α]

/-! ## The parameters in force -/

namespace Band

namespace Change

/-- The categories that are set. -/
def domain? : Change α → Option (List (Value α))
  | domain values => some values
  | _ => none

/-- The alignment that is set. -/
def align? : Change α → Option α
  | align share => some (Scalar.clamp 0 1 share)
  | _ => none

/-- The inner padding that is set, if it can be set. -/
def paddingInner? : Change α → Option α
  | padding p | paddingInner p => some (Scalar.least p 1)
  | _ => none

/-- The outer padding that is set. -/
def paddingOuter? : Change α → Option α
  | padding p | paddingOuter p => some p
  | _ => none

/-- The rounding that is set. -/
def round? : Change α → Option Bool
  | round on => some on
  | _ => none

end Change

/-- The ends of the range, by the changes from the last to the first. -/
def rangeInForce : List (Change α) → α × α
  | [] => (0, 1)
  | .range start stop :: _ => (start, stop)
  | .reversed :: earlier => (rangeInForce earlier).swap
  | _ :: earlier => rangeInForce earlier

/-- Bands with the parameters that were last set, by the changes from the last to the first. -/
def inForce (isPoint : Bool) (changes : List (Change α)) : Band α where
  isPoint
  domain := .ofList ((changes.findSome? Change.domain?).getD [])
  start := (rangeInForce changes).1
  stop := (rangeInForce changes).2
  paddingInner := if isPoint then 1 else (changes.findSome? Change.paddingInner?).getD 0
  paddingOuter := (changes.findSome? Change.paddingOuter?).getD 0
  align := (changes.findSome? Change.align?).getD (Scalar.ofInt 1 / Scalar.ofInt 2)
  round := (changes.findSome? Change.round?).getD false

/-- New bands after changes. -/
def after (isPoint : Bool) (changes : List (Change α)) : Band α := changes.foldl change (ofKind isPoint)

theorem change_inForce (isPoint : Bool) (earlier : List (Change α)) (c : Change α) :
    (inForce isPoint earlier).change c = inForce isPoint (c :: earlier) := by
  cases c with
  | padding p | paddingInner p => cases isPoint <;> rfl
  | _ => rfl

/-- The parameters after changes are those last set. -/
theorem after_eq_inForce (isPoint : Bool) (changes : List (Change α)) :
    after isPoint changes = inForce isPoint changes.reverse := by
  induction changes using List.reverseRecOn with
  | nil => rfl
  | append_singleton changes c ih =>
    show (changes ++ [c]).foldl change (ofKind isPoint) = _
    rw [List.foldl_append, List.reverse_append]
    show (after isPoint changes).change c = inForce isPoint (c :: changes.reverse)
    rw [ih, change_inForce]

/-! ## What a layout depends on -/

variable {s s' : Band α} {v : Value α} {i : Nat}

/-- Bands have the same parameters, their categories the same keys. -/
structure Agrees (s s' : Band α) : Prop where
  keys : s.domain.keys = s'.domain.keys
  start : s.start = s'.start
  stop : s.stop = s'.stop
  paddingInner : s.paddingInner = s'.paddingInner
  paddingOuter : s.paddingOuter = s'.paddingOuter
  align : s.align = s'.align
  round : s.round = s'.round

theorem Agrees.size_eq (h : s.Agrees s') : s.domain.size = s'.domain.size := by
  have hlength := congrArg List.length h.keys
  unfold Categories.keys at hlength
  rw [List.length_map, List.length_map] at hlength
  exact hlength

theorem Agrees.layout_eq (h : s.Agrees s') : s.layout = s'.layout := by
  have hascending : ∀ lo hi, s.ascendingLayout lo hi = s'.ascendingLayout lo hi := by
    intro lo hi
    unfold ascendingLayout
    rw [h.size_eq, h.paddingInner, h.paddingOuter, h.align, h.round]
  unfold layout
  rw [h.start, h.stop, hascending, hascending]

theorem Agrees.apply_eq (h : s.Agrees s') (v : Value α) : s.apply v = s'.apply v := by
  unfold apply positionIn
  rw [Categories.position?_eq_findIdx?_keys, Categories.position?_eq_findIdx?_keys, h.keys, h.layout_eq]

/-- A value is answered with the position of the place at which its key is. -/
theorem apply_of_getElem? (h : s.domain.keys[i]? = some v.key) :
    ∃ x, s.layout.positions[i]? = some x ∧ s.apply v = .number x := by
  have hvalue : ∃ w, s.domain.values[i]? = some w ∧ w.key = v.key := by
    unfold Categories.keys at h
    rw [List.getElem?_map] at h
    exact Option.map_eq_some_iff.mp h
  have hplace : s.domain.position? v.key = some i := Categories.position?_eq_some_iff.mpr hvalue
  obtain ⟨w, hw, -⟩ := hvalue
  obtain ⟨hi, -⟩ := List.getElem?_eq_some_iff.mp hw
  have hlength : i < s.layout.positions.length := by
    rw [length_positions_layout]
    exact hi
  refine ⟨s.layout.positions[i], List.getElem?_eq_getElem hlength, ?_⟩
  unfold apply positionIn
  rw [hplace, Option.bind_some, List.getElem?_eq_getElem hlength]
  rfl

/-- Values whose keys are not in the domain have no position. -/
theorem apply_eq_null_iff : s.apply v = .null ↔ v.key ∉ s.domain.keys := by
  constructor
  · intro hnull hmem
    obtain ⟨i, hi⟩ := List.getElem?_of_mem hmem
    obtain ⟨x, -, hx⟩ := apply_of_getElem? hi
    rw [hx] at hnull
    nomatch hnull
  · intro h
    unfold apply positionIn
    rw [Categories.position?_eq_none_iff.mpr h]
    rfl

end Band

/-! ## Layouts stay current -/

namespace LaidBands

/-- Bands that are laid out by their parameters. -/
def current (bands : Band α) : LaidBands α :=
  { bands, places := bands.domain.places, layout := bands.layout }

/-- New bands after changes, laid out. -/
def after (isPoint : Bool) (changes : List (Band.Change α)) : LaidBands α :=
  changes.foldl change (ofKind isPoint)

/-- Bands that are laid out again for the same categories are current. -/
theorem relaid_current {bands bands' : Band α} (h : bands'.domain = bands.domain) :
    (current bands).relaid bands' = current bands' := by
  show LaidBands.mk bands' bands.domain.places bands'.layout = LaidBands.mk bands' bands'.domain.places bands'.layout
  rw [h]

/-- A change of current bands leaves them current. -/
theorem change_current (bands : Band α) (c : Band.Change α) : (current bands).change c = current (bands.change c) := by
  have hdomain : ∀ p, (bands.withPaddingInner p).domain = bands.domain := by
    intro p
    unfold Band.withPaddingInner
    split <;> rfl
  cases c with
  -- the places belong to the domain, and no other change touches it
  | domain => rfl
  | padding p => exact relaid_current (hdomain p)
  | paddingInner p =>
    show (if bands.isPoint then _ else _) = current (bands.withPaddingInner p)
    split
    -- a point scale is not laid out again, as nothing is set
    next h => rw [Band.withPaddingInner, if_pos h]
    next => exact relaid_current (hdomain p)
  | _ => exact relaid_current rfl

/-- Bands are current after any changes. -/
theorem after_eq_current (isPoint : Bool) (changes : List (Band.Change α)) :
    after isPoint changes = current (Band.after isPoint changes) := by
  have hrun : ∀ bands : Band α, changes.foldl change (current bands) = current (changes.foldl Band.change bands) := by
    induction changes with
    | nil => exact fun _ => rfl
    | cons c changes ih =>
      intro bands
      rw [List.foldl_cons, change_current, ih, List.foldl_cons]
  exact hrun (Band.ofKind isPoint)

theorem lookup_places (c : Categories α) (key : String) : c.places.lookup key = c.position? key := by
  have h := Categories.lookup_map_zipIdx id key c.values 0
  simp only [id, Nat.zero_add, Option.map_id'] at h
  exact h

theorem apply_current (bands : Band α) (v : Value α) : (current bands).apply v = bands.apply v := by
  show Value.ofNumber? ((bands.domain.places.lookup v.key).bind _) = _
  rw [lookup_places]
  rfl

/-- The layout after changes is that of the parameters in force, and so is every answer. -/
theorem after_never_stale (isPoint : Bool) (changes : List (Band.Change α)) :
    let s := after isPoint changes
    s.bands = Band.inForce isPoint changes.reverse ∧
      s.layout = s.bands.layout ∧
      (∀ isPoint' changes', s.bands.Agrees (after isPoint' changes').bands →
        s.layout = (after isPoint' changes').layout ∧ ∀ v, s.apply v = (after isPoint' changes').apply v) ∧
      s.layout.positions.length = s.bands.domain.size ∧
      s.bands.domain.keys.Nodup ∧
      (∀ (v : Value α) (i : Nat), s.bands.domain.keys[i]? = some v.key →
        ∃ x, s.layout.positions[i]? = some x ∧ s.apply v = .number x) ∧
      (∀ v : Value α, s.apply v = .null ↔ v.key ∉ s.bands.domain.keys) ∧
      (isPoint = true → s.bands.paddingInner = 1) := by
  intro s
  have hs : s = current (Band.after isPoint changes) := after_eq_current isPoint changes
  have hforce : s.bands = Band.inForce isPoint changes.reverse := by
    rw [hs]
    exact Band.after_eq_inForce isPoint changes
  have happly : ∀ v, s.apply v = s.bands.apply v := by
    intro v
    rw [hs]
    exact apply_current _ v
  have hlayout : s.layout = s.bands.layout := by
    rw [hs]
    rfl
  refine ⟨hforce, hlayout, ?_, ?_, s.bands.domain.keys_nodup, ?_, ?_, ?_⟩
  · intro isPoint' changes' hagrees
    rw [after_eq_current isPoint' changes'] at hagrees ⊢
    refine ⟨hlayout.trans hagrees.layout_eq, fun v => ?_⟩
    rw [happly, hagrees.apply_eq, apply_current]
    rfl
  · rw [hlayout]
    exact Band.length_positions_layout _
  · intro v i hi
    rw [hlayout, happly]
    exact Band.apply_of_getElem? hi
  · intro v
    rw [happly]
    exact Band.apply_eq_null_iff
  · rintro rfl
    rw [hforce]
    rfl

/-- A range that is reversed before there are categories, and one that is given in reverse after some others. -/
theorem after_never_stale_reversed :
    let changes : List (Band.Change Extended) := [.range 0 10, .reversed, .domain [.string "a", .string "b"]]
    let changes' : List (Band.Change Extended) :=
      [.domain [.string "c"], .paddingInner 0, .domain [.string "a", .string "b"], .range 10 0]
    (after true changes).bands.Agrees (after true changes').bands ∧
      (after true changes).layout = (after true changes').layout ∧
      ∀ v, (after true changes).apply v = (after true changes').apply v := by
  intro changes changes'
  have hagrees : (after true changes).bands.Agrees (after true changes').bands :=
    ⟨rfl, rfl, rfl, rfl, rfl, rfl, rfl⟩
  exact ⟨hagrees, (after_never_stale true changes).2.2.1 true changes' hagrees⟩

end LaidBands

end VisualEncoding
