import VisualEncoding.Proofs.Color.Holders
import VisualEncoding.Proofs.Color.InTurn
import VisualEncoding.Scalar.Double

/-!
# What is shared

Which requests share a table is told by the names in them. A name stands for a scheme
(`SchemeRegistry.StandsFor`), whatever the case of its letters, and a name that nobody has registered for
the default scheme. The registry resolves names in just this way (`standsFor_iff`), so

> `TableRun.shared_by_request`: until a reset two requests get the same table if and only if they are about
> the same scheme and group. What is done to one table cannot be noticed at another. A table that is only
> asked for colors gives them to the keys in turn.
-/

namespace VisualEncoding

/-- A scheme that is registered under a name. -/
inductive SchemeRegistration where
  | categorical (name : String) (colors : List String)
  | sequential (name : String) (colors : List String)

namespace SchemeRegistry

/-- Registers a scheme. -/
def register (r : SchemeRegistry) : SchemeRegistration → SchemeRegistry
  | .categorical name colors => r.addCategorical name colors
  | .sequential name colors => r.addSequential name colors

/-- The built-in schemes and those that are registered one after the other. -/
def ofRegistrations (regs : List SchemeRegistration) : SchemeRegistry := regs.foldl register {}

/-- A categorical scheme of that name is built in or was registered, whatever the case of the letters. -/
def Known (regs : List SchemeRegistration) (name : String) : Prop :=
  Text.lower name ∈ Color.categoricalSchemes.map Prod.fst ∨
    ∃ name' colors, .categorical name' colors ∈ regs ∧ Text.lower name' = Text.lower name

/-- The scheme of categories that a name stands for, by its own name in lower case. -/
inductive StandsFor (regs : List SchemeRegistration) : Option String → String → Prop
  | known {name : String} (h : Known regs name) : StandsFor regs (some name) (Text.lower name)
  | unknown {name : String} (h : ¬ Known regs name) :
    StandsFor regs (some name) Color.defaultScheme
  | absent : StandsFor regs none Color.defaultScheme

variable {regs : List SchemeRegistration}

/-- A scheme is there if its name in lower case is. -/
theorem isSome_categorical?_iff (r : SchemeRegistry) (name : String) :
    (r.categorical? name).isSome ↔ Text.lower name ∈ r.categorical.map Prod.fst := by
  unfold categorical?
  rw [List.lookup_isSome_iff, List.mem_map]
  constructor
  · rintro ⟨entry, hmem, hname⟩
    exact ⟨entry, hmem, (eq_of_beq hname).symm⟩
  · rintro ⟨entry, hmem, hname⟩
    exact ⟨entry, hmem, beq_iff_eq.mpr hname.symm⟩

/-- What is in a registry is what was there and what was registered. The induction is on the
registrations, for any registry to start from. -/
theorem isSome_categorical?_foldl (regs : List SchemeRegistration) (r : SchemeRegistry) (name : String) :
    ((regs.foldl register r).categorical? name).isSome ↔
      Text.lower name ∈ r.categorical.map Prod.fst ∨
        ∃ name' colors, .categorical name' colors ∈ regs ∧ Text.lower name' = Text.lower name := by
  induction regs generalizing r with
  | nil =>
    show (r.categorical? name).isSome ↔ _
    rw [isSome_categorical?_iff]
    simp
  | cons reg regs ih =>
    rw [List.foldl_cons, ih]
    cases reg with
    | categorical name' colors =>
      simp only [register, addCategorical, List.map_cons, List.mem_cons, SchemeRegistration.categorical.injEq]
      constructor
      · rintro ((hhere | hold) | ⟨name'', colors', hmem, hname⟩)
        · exact Or.inr ⟨name', colors, Or.inl ⟨rfl, rfl⟩, hhere.symm⟩
        · exact Or.inl hold
        · exact Or.inr ⟨name'', colors', Or.inr hmem, hname⟩
      · rintro (hold | ⟨name'', colors', ⟨rfl, rfl⟩ | hmem, hname⟩)
        · exact Or.inl (Or.inr hold)
        · exact Or.inl (Or.inl hname.symm)
        · exact Or.inr ⟨name'', colors', hmem, hname⟩
    | sequential name' colors => simp [register, addSequential]

theorem known_iff (regs : List SchemeRegistration) (name : String) :
    Known regs name ↔ ((ofRegistrations regs).categorical? name).isSome :=
  (isSome_categorical?_foldl regs {} name).symm

/-- A registry resolves a name to the scheme that it stands for. -/
theorem standsFor_iff {name : Option String} {scheme : String} :
    StandsFor regs name scheme ↔ (ofRegistrations regs).resolve name = scheme := by
  cases name with
  | none =>
    constructor
    · rintro ⟨⟩
      rfl
    · rintro rfl
      exact .absent
  | some name =>
    unfold resolve
    dsimp only
    by_cases hknown : Known regs name
    · rw [if_pos ((known_iff regs name).mp hknown)]
      constructor
      · rintro (_ | hunknown)
        · rfl
        · exact absurd hknown hunknown
      · rintro rfl
        exact .known hknown
    · rw [if_neg (fun h => hknown ((known_iff regs name).mpr h))]
      constructor
      · rintro (hknown' | _)
        · exact absurd hknown' hknown
        · rfl
      · rintro rfl
        exact .unknown hknown

end SchemeRegistry

open SchemeRegistry

namespace SharedTables

/-- Requests are about the same if their names stand for the same scheme and their groups are the same. -/
theorem requestKey_eq_iff {s : SharedTables} {regs : List SchemeRegistration}
    (hs : s.schemes = .ofRegistrations regs) {scheme group scheme' group' : Option String} :
    s.requestKey scheme' group' = s.requestKey scheme group ↔
      (∃ key, StandsFor regs scheme key ∧ StandsFor regs scheme' key) ∧
        group.getD defaultGroup = group'.getD defaultGroup := by
  unfold requestKey
  rw [hs, Prod.mk.injEq]
  constructor
  · rintro ⟨hscheme, hgroup⟩
    exact ⟨⟨_, standsFor_iff.mpr rfl, standsFor_iff.mpr hscheme⟩, hgroup.symm⟩
  · rintro ⟨⟨key, hkey, hkey'⟩, hgroup⟩
    exact ⟨(standsFor_iff.mp hkey').trans (standsFor_iff.mp hkey).symm, hgroup.symm⟩

/-- A request gets a table that is in use if and only if it is about what the table is in use for. -/
theorem Consistent.tableFor_eq_iff {s : SharedTables} (h : s.Consistent) {key : String × String}
    {id : Nat} (hid : s.inUse? key = some id) (scheme group : Option String) :
    (s.tableFor scheme group).1 = id ↔ s.requestKey scheme group = key := by
  constructor
  · intro hsame
    -- after the request the table is in use for both, and a table serves one request only
    refine (h.tableFor scheme group).injective _ key id ?_ (inUse?_tableFor_of_inUse scheme group hid)
    rw [inUse?_tableFor, if_pos rfl, hsame]
  · rintro rfl
    rw [tableFor_of_inUse hid]

end SharedTables

variable {α : Type} [Scalar α]

/-! ## Tables that are only asked for colors -/

namespace TableUse

/-- The values that were looked up. -/
def lookedUp (uses : List (TableUse α)) : List (Value α) :=
  uses.filterMap fun
    | .lookUp v => some v
    | .pin _ _ | .count | .palette => none

end TableUse

namespace TableRun

open TableUse

variable {r : TableRun} {id j : Nat} {palette : List String} {v : Value α}

/-- Without pins the look-ups are all that counts. -/
theorem replay_of_no_pin {uses : List (TableUse α)} (h : ∀ w color, .pin w color ∉ uses) (t : ColorTable) :
    replay uses t = (lookedUp uses).foldl (fun t v => (t.colorFor v).2) t := by
  induction uses generalizing t with
  | nil => rfl
  | cons u uses ih =>
    have hrest : ∀ w color, .pin w color ∉ uses := fun w color hmem =>
      h w color (List.mem_cons_of_mem u hmem)
    cases u with
    | lookUp v => exact ih hrest (t.colorFor v).2
    | pin v color => exact absurd (List.mem_cons_self ..) (h v color)
    | count => exact ih hrest t
    | palette => exact ih hrest t

/-- A table whose history has no pin answers with the color of the place of the key among the keys that
were looked up in it, this one included. -/
theorem call_lookUp_of_no_pin (schemes : SchemeRegistry) (past : List (TableCall α))
    (hr : r = (start schemes).after past) (hj : r.held[j]? = some id)
    (hpalette : (r.tables.table id).palette = palette) (hne : palette ≠ [])
    (hpin : ∀ w color, .pin w color ∉ usesOf id (start schemes) past) (v : Value α) {k : Nat}
    (hk : (Categories.ofList (lookedUp (usesOf id (start schemes) past) ++ [v])).position? v.key
      = some k) :
    (r.call (.use j (.lookUp v))).1 = .color (ColorTable.colorAt palette k) := by
  have hlt : id < r.tables.tables.size := by
    rw [hr] at hj ⊢
    exact ((sound_start schemes).after past).bounded id (List.mem_of_getElem? hj)
  have htable : r.tables.table id
      = .inTurn palette (.ofList (lookedUp (usesOf id (start schemes) past))) := by
    rw [hr] at hlt
    have hreplay := (sound_start schemes).table_after (Nat.zero_le id) past hlt
    rw [← hr, hpalette, replay_of_no_pin hpin, ColorTable.foldl_colorFor hne] at hreplay
    exact hreplay
  rw [Categories.ofList_append_singleton, Categories.position?_insert_self] at hk
  cases hk
  rw [call_use_of_held hj, htable]
  show TableAnswer.color (ColorTable.colorFor _ v).1 = _
  rw [ColorTable.colorFor_inTurn hne]

/-- Until a reset, a request gets the table of a request before if and only if it is about the same. -/
theorem requested_after_request_iff {regs : List SchemeRegistration} (h : r.Sound)
    (hschemes : r.tables.schemes = .ofRegistrations regs) (scheme group scheme' group' : Option String)
    {between : List (TableCall α)} (hbetween : .reset ∉ between) :
    ((r.next (.request scheme group : TableCall α)).after between).requested scheme' group'
        = r.requested scheme group ↔
      (∃ key, StandsFor regs scheme key ∧ StandsFor regs scheme' key) ∧
        group.getD SharedTables.defaultGroup = group'.getD SharedTables.defaultGroup := by
  have hsound := (h.next (.request scheme group : TableCall α)).after between
  -- the table of the first request is in use for it until the second request
  have hinUse : (r.next (.request scheme group : TableCall α)).tables.inUse?
      (r.tables.requestKey scheme group) = some (r.requested scheme group) := by
    show (r.tables.tableFor scheme group).2.inUse? _ = _
    rw [SharedTables.inUse?_tableFor, if_pos rfl]
    rfl
  have hiff := hsound.consistent.tableFor_eq_iff (inUse?_after hbetween hinUse) scheme' group'
  -- and the second request is about what it would have been about at once
  have hkey : ((r.next (.request scheme group : TableCall α)).after between).tables.requestKey
      scheme' group' = r.tables.requestKey scheme' group' := by
    unfold SharedTables.requestKey
    rw [schemes_after, schemes_next]
  rw [hkey, SharedTables.requestKey_eq_iff hschemes] at hiff
  exact hiff

/-- A use of a table changes neither what is held later nor what another table answers later. -/
theorem answer_after_use (r : TableRun) (i : Nat) (u : TableUse α) (later : List (TableCall α)) :
    ((r.next (.use i u)).after later).held = (r.after later).held ∧
      ∀ j (u' : TableUse α), (r.after later).held[j]? ≠ r.held[i]? →
        (((r.next (.use i u)).after later).call (.use j u')).1
          = ((r.after later).call (.use j u')).1 := by
  cases hi : r.held[i]? with
  | none =>
    -- nothing is used
    rw [next_use_of_not_held hi]
    exact ⟨rfl, fun _ _ _ => rfl⟩
  | some id =>
    have hagree := (agreeExcept_use hi u).after later
    exact ⟨hagree.held, fun j u' hne => hagree.answer_eq hne u'⟩

/-- **Tables are shared by what is requested.** After any run, and with any schemes registered:

* Two requests with no reset between them get the same table if and only if their names stand for the same
  scheme and their groups are the same.
* A use of a table changes neither what is held later nor what any other table answers later.
* In a table that was only asked for colors, the `k`-th distinct key that it was asked for has the `k`-th
  color of the palette, which starts over when it runs out. -/
theorem shared_by_request (regs : List SchemeRegistration) (past : List (TableCall α))
    (hr : r = (start (.ofRegistrations regs)).after past) :
    (∀ scheme group scheme' group' (between : List (TableCall α)), .reset ∉ between →
      (((r.next (.request scheme group : TableCall α)).after between).requested scheme' group'
          = r.requested scheme group ↔
        (∃ key, StandsFor regs scheme key ∧ StandsFor regs scheme' key) ∧
          group.getD SharedTables.defaultGroup = group'.getD SharedTables.defaultGroup)) ∧
    (∀ i (u : TableUse α) (later : List (TableCall α)),
      ((r.next (.use i u)).after later).held = (r.after later).held ∧
      ∀ j (u' : TableUse α), (r.after later).held[j]? ≠ r.held[i]? →
        (((r.next (.use i u)).after later).call (.use j u')).1
          = ((r.after later).call (.use j u')).1) ∧
    (∀ j id palette (v : Value α) k, r.held[j]? = some id →
      (r.call (.use j .palette : TableCall α)).1 = .palette palette → palette ≠ [] →
      (∀ w color, .pin w color ∉ usesOf id (start (.ofRegistrations regs)) past) →
      (Categories.ofList
        (lookedUp (usesOf id (start (.ofRegistrations regs)) past) ++ [v])).position? v.key = some k →
      ∃ color, palette[k % palette.length]? = some color ∧
        (r.call (.use j (.lookUp v))).1 = .color color) := by
  have hsound : r.Sound := by
    rw [hr]
    exact (sound_start _).after past
  have hschemes : r.tables.schemes = .ofRegistrations regs := by
    rw [hr]
    exact schemes_after (start _) past
  refine ⟨?_, answer_after_use r, ?_⟩
  · intro scheme group scheme' group' between hbetween
    exact requested_after_request_iff hsound hschemes scheme group scheme' group' hbetween
  · intro j id palette v k hj hpalette hne hpin hk
    rw [call_use_of_held hj] at hpalette
    injection hpalette with hpalette
    exact ⟨_, ColorTable.getElem?_eq_colorAt hne k,
      call_lookUp_of_no_pin _ past hr hj hpalette hne hpin v hk⟩

/-- A scheme of two colors under a name of its own. -/
def blackAndWhite : List SchemeRegistration := [.categorical "Mono" ["#000000", "#ffffff"]]

/-- A request, and three look-ups of two values. -/
def twoLookedUp : List (TableCall Float) :=
  [.request (some "MONO") none, .use 0 (.lookUp (.string "x")), .use 0 (.lookUp (.string "y")),
    .use 0 (.lookUp (.string "x"))]

/-- The same request after a reset. -/
def onceMore : List (TableCall Float) := [.reset, .request (some "mono") none]

/-- The program after the look-ups. -/
def withTwoLookedUp : TableRun := (start (.ofRegistrations blackAndWhite)).after twoLookedUp

/-- Two ways to write a name request one table, a pin cannot be noticed at the table that is made after a
reset, and the second value has the second color. -/
theorem shared_by_request_blackAndWhite :
    ((withTwoLookedUp.next (α := Float) (.request (some "Mono") none)).after (α := Float) []).requested
        (some "mono") (some "GLOBAL")
      = withTwoLookedUp.requested (some "Mono") none ∧
    (((withTwoLookedUp.next (α := Float) (.use 0 (.pin (.string "x") "red"))).after onceMore).call
        (α := Float) (.use 1 (.lookUp (.string "x")))).1
      = ((withTwoLookedUp.after onceMore).call (α := Float) (.use 1 (.lookUp (.string "x")))).1 ∧
    ∃ color, ["#000000", "#ffffff"][1 % 2]? = some color ∧
      (withTwoLookedUp.call (α := Float) (.use 0 (.lookUp (.string "y")))).1 = .color color := by
  have hstart : withTwoLookedUp = (start (.ofRegistrations blackAndWhite)).after twoLookedUp := rfl
  obtain ⟨hshared, hapart, hinTurn⟩ := shared_by_request blackAndWhite twoLookedUp hstart
  have hmono : StandsFor blackAndWhite (some "Mono") (Text.lower "Mono") :=
    .known (Or.inr ⟨"Mono", _, List.mem_cons_self .., rfl⟩)
  have hmono' : StandsFor blackAndWhite (some "mono") (Text.lower "mono") :=
    .known (Or.inr ⟨"Mono", _, List.mem_cons_self .., rfl⟩)
  have hpin : ∀ (w : Value Float) color,
      .pin w color ∉ usesOf 0 (start (.ofRegistrations blackAndWhite)) twoLookedUp := by
    intro w color
    show TableUse.pin w color ∉ [.lookUp (.string "x"), .lookUp (.string "y"), .lookUp (.string "x")]
    simp
  have hother : (withTwoLookedUp.after onceMore).held[1]? ≠ withTwoLookedUp.held[0]? := by
    show some 1 ≠ some 0
    decide
  have hheld : withTwoLookedUp.held[0]? = some 0 := rfl
  have hcolors : (withTwoLookedUp.tables.table 0).palette = ["#000000", "#ffffff"] := by
    decide +kernel
  have hpalette : (withTwoLookedUp.call (α := Float) (.use 0 .palette)).1
      = .palette ["#000000", "#ffffff"] := by
    rw [call_use_of_held hheld, ← hcolors]
    rfl
  refine ⟨?_, ?_, ?_⟩
  · exact (hshared (some "Mono") none (some "mono") (some "GLOBAL") [] nofun).mpr
      ⟨⟨"mono", hmono, hmono'⟩, rfl⟩
  · exact (hapart 0 (.pin (.string "x") "red") onceMore).2 1 (.lookUp (.string "x")) hother
  · exact hinTurn 0 0 ["#000000", "#ffffff"] (.string "y") 1 hheld hpalette
      (List.cons_ne_nil _ _) hpin rfl

end TableRun

end VisualEncoding
