import VisualEncoding.Json.Parser
import VisualEncoding.Proofs.Json.Canonical
import VisualEncoding.Proofs.Scalar.Scaling

/-!
# What is read from a text holds numerals

> `Json.holdsNumerals_of_parse`: a tree that was read from a text holds only numbers that have a numeral.

A numeral that is no integer of 64 bits is a word that is scaled by a power of ten. Scaling starts from a finite
double, divides by powers of ten only, and refuses a product that is infinite. The machine of the grammar puts
together what the tokens stand for; that all of it holds numerals is an invariant of its steps
(`Reading.HoldsNumerals`).
-/

namespace VisualEncoding.Json

/-! ## Numbers -/

/-- Scaling a finite double by a power of ten gives a finite double, or none. -/
theorem isFinite_of_scaleByTen {x y : Float} {e : Int} (hx : x.isFinite = true) (h : scaleByTen x e = some y) :
    y.isFinite = true := by
  fun_induction scaleByTen x e with
  | case1 x e hsmall hpos y' hinf => nomatch h
  | case2 x e hsmall hpos y' hinf =>
    rw [← Option.some.inj h]
    have hpower := Double.isFinite_nearest hpos (by omega)
    exact Double.isFinite_mul hx hpower (Bool.eq_false_iff.mpr hinf)
  | case3 x e hsmall hneg =>
    rw [← Option.some.inj h]
    exact Double.isFinite_div_nearest hx (by omega) (by omega)
  | case4 x e hlarge hzero =>
    cases h
    exact hx
  | case5 x e hlarge hzero hpos => nomatch h
  | case6 x e hlarge hzero hneg ih =>
    exact ih (Double.isFinite_div_nearest hx (by decide) (by decide)) h

theorem isFinite_of_doubleOf {negative : Bool} {whole places : List Char} {exponent : Int} {x : Float}
    (h : doubleOf negative whole places exponent = some x) : x.isFinite = true := by
  obtain ⟨y, hy, rfl⟩ := Option.map_eq_some_iff.mp h
  have hfinite := isFinite_of_scaleByTen (Double.isFinite_toFloat _) hy
  cases negative with
  | false => exact hfinite
  | true => exact Double.isFinite_neg hfinite

theorem holdsNumerals_of_doubleOf {negative : Bool} {whole places : List Char} {exponent : Int} {j : Json}
    (h : (doubleOf negative whole places exponent).map .float = some j) : j.HoldsNumerals := by
  obtain ⟨x, hx, rfl⟩ := Option.map_eq_some_iff.mp h
  exact .float (isFinite_of_doubleOf hx)

theorem holdsNumerals_of_integerOf {negative : Bool} {whole : List Char} {j : Json}
    (h : integerOf negative whole = some j) : j.HoldsNumerals := by
  unfold integerOf at h
  dsimp only at h
  split at h
  · split at h
    · cases h
      exact .int (by omega)
    · exact holdsNumerals_of_doubleOf h
  · split at h
    · cases h
      exact .int (by omega)
    · exact holdsNumerals_of_doubleOf h

/-! ## Tokens -/

/-- A token that stands for a value stands for one that holds numerals. -/
def Token.HoldsNumerals : Token → Prop
  | .atom j => j.HoldsNumerals
  | _ => True

theorem holdsNumerals_numberToken {value : Option Json} {rest : List Char}
    (h : ∀ j, value = some j → j.HoldsNumerals) : (numberToken value rest).1.HoldsNumerals := by
  cases value with
  | none => trivial
  | some j => exact h j rfl

theorem holdsNumerals_scanExponent (negative : Bool) (whole places rest : List Char) :
    (scanExponent negative whole places rest).1.HoldsNumerals := by
  unfold scanExponent
  dsimp only
  split
  · trivial
  · exact holdsNumerals_numberToken fun _ => holdsNumerals_of_doubleOf

theorem holdsNumerals_scanTail (negative : Bool) (whole rest : List Char) :
    (scanTail negative whole rest).1.HoldsNumerals := by
  unfold scanTail
  split
  · dsimp only
    split
    · trivial
    · split
      · exact holdsNumerals_scanExponent ..
      · exact holdsNumerals_scanExponent ..
      · exact holdsNumerals_numberToken fun _ => holdsNumerals_of_doubleOf
  · exact holdsNumerals_scanExponent ..
  · exact holdsNumerals_scanExponent ..
  · exact holdsNumerals_numberToken fun _ => holdsNumerals_of_integerOf

theorem holdsNumerals_scanNumber (negative : Bool) (cs : List Char) :
    (scanNumber negative cs).1.HoldsNumerals := by
  unfold scanNumber
  dsimp only
  split
  · trivial
  · trivial
  · exact holdsNumerals_scanTail ..

theorem holdsNumerals_scanText (done : Option (List Char)) (cs : List Char) :
    (scanText done cs).1.HoldsNumerals := by
  fun_induction scanText done cs with
  | case5 done rest c? after _ hlt ih => exact ih
  | case8 done c rest _ _ _ ih => exact ih
  | _ => trivial

theorem holdsNumerals_scanWord {value : Json} (hvalue : value.HoldsNumerals) (word rest : List Char) :
    (scanWord value word rest).1.HoldsNumerals := by
  fun_induction scanWord value word rest with
  | case1 => exact hvalue
  | case3 w word c rest heq ih => exact ih
  | _ => trivial

theorem holdsNumerals_scanToken (c : Char) (rest : List Char) : (scanToken c rest).1.HoldsNumerals := by
  unfold scanToken
  split
  case h_7 => exact holdsNumerals_scanText ..
  case h_8 => exact holdsNumerals_scanNumber ..
  case h_9 => exact holdsNumerals_scanWord .null ..
  case h_10 | h_11 => exact holdsNumerals_scanWord (.bool _) ..
  case h_12 =>
    split
    · exact holdsNumerals_scanNumber ..
    · trivial
  all_goals trivial

theorem holdsNumerals_tokens (cs : List Char) : ∀ t ∈ tokens cs, t.HoldsNumerals := by
  fun_induction tokens cs with
  | case1 => exact List.forall_mem_nil _
  | case2 c rest hspace ih => exact ih
  | case3 c rest hspace token after heq ih =>
    rw [List.forall_mem_cons]
    have htoken := holdsNumerals_scanToken c rest
    rw [heq] at htoken
    refine ⟨htoken, ?_⟩
    split
    next hlt => exact ih hlt
    next => exact List.forall_mem_nil _

/-! ## The machine -/

/-- What an open array or object holds so far holds numerals. -/
def Frame.HoldsNumerals : Frame → Prop
  | .items done => ∀ j ∈ done, j.HoldsNumerals
  | .members done _ => ∀ m ∈ done, m.2.HoldsNumerals

namespace Reading

/-- All that a reading has put together holds numerals. -/
structure HoldsNumerals (r : Reading) : Prop where
  frames : ∀ f ∈ r.frames, f.HoldsNumerals
  result : r.result.HoldsNumerals

variable {r r' : Reading}

theorem HoldsNumerals.finish {value : Json} {frames : List Frame} (h : r.HoldsNumerals)
    (hvalue : value.HoldsNumerals) (hframes : ∀ f ∈ frames, f.HoldsNumerals) :
    (r.finish value frames).HoldsNumerals := by
  match frames, hframes with
  | [], hframes => exact ⟨hframes, hvalue⟩
  | .items done :: frames, hframes =>
    obtain ⟨hdone, hframes⟩ := List.forall_mem_cons.mp hframes
    exact ⟨List.forall_mem_cons.mpr ⟨List.forall_mem_cons.mpr ⟨hvalue, hdone⟩, hframes⟩, h.result⟩
  | .members done key :: frames, hframes =>
    obtain ⟨hdone, hframes⟩ := List.forall_mem_cons.mp hframes
    exact ⟨List.forall_mem_cons.mpr ⟨List.forall_mem_cons.mpr ⟨hvalue, hdone⟩, hframes⟩, h.result⟩

theorem HoldsNumerals.openFrame {frame : Frame} {goal : Goal} (h : r.HoldsNumerals) (hframe : frame.HoldsNumerals)
    (hopen : r.openFrame frame goal = .ok r') : r'.HoldsNumerals := by
  unfold Reading.openFrame at hopen
  split at hopen
  · cases hopen
    exact ⟨List.forall_mem_cons.mpr ⟨hframe, h.frames⟩, h.result⟩
  · nomatch hopen

theorem HoldsNumerals.close (h : r.HoldsNumerals) (hclose : r.close = .ok r') : r'.HoldsNumerals := by
  have hframes := h.frames
  unfold Reading.close at hclose
  split at hclose
  next done frames heq =>
    cases hclose
    rw [heq] at hframes
    obtain ⟨hdone, hframes⟩ := List.forall_mem_cons.mp hframes
    exact h.finish (.array fun j hj => hdone j (List.mem_reverse.mp hj)) hframes
  next done key frames heq =>
    cases hclose
    rw [heq] at hframes
    obtain ⟨hdone, hframes⟩ := List.forall_mem_cons.mp hframes
    exact h.finish (.object fun m hm => hdone m (List.mem_reverse.mp hm)) hframes
  next => nomatch hclose

theorem HoldsNumerals.takeKey {key : String} (h : r.HoldsNumerals) (htake : r.takeKey key = .ok r') :
    r'.HoldsNumerals := by
  have hframes := h.frames
  unfold Reading.takeKey at htake
  split at htake
  next done key' frames heq =>
    cases htake
    rw [heq] at hframes
    obtain ⟨hdone, hframes⟩ := List.forall_mem_cons.mp hframes
    exact ⟨List.forall_mem_cons.mpr ⟨hdone, hframes⟩, h.result⟩
  next => nomatch htake

theorem HoldsNumerals.takeVoidKey (h : r.HoldsNumerals) (htake : r.takeVoidKey = .ok r') : r'.HoldsNumerals := by
  unfold Reading.takeVoidKey at htake
  split at htake
  · exact h.takeKey htake
  · nomatch htake

theorem HoldsNumerals.takeValue {t : Token} (h : r.HoldsNumerals) (ht : t.HoldsNumerals)
    (htake : r.takeValue t = .ok r') : r'.HoldsNumerals := by
  cases t with
  | atom j =>
    cases htake
    exact h.finish ht h.frames
  | text s =>
    cases htake
    exact h.finish (.string s) h.frames
  | void inText =>
    unfold Reading.takeValue at htake
    dsimp only at htake
    split at htake
    · cases htake
      exact h.finish .null h.frames
    · nomatch htake
  | openBracket =>
    have hempty : (Frame.items []).HoldsNumerals := List.forall_mem_nil _
    exact h.openFrame hempty htake
  | openBrace =>
    have hempty : (Frame.members [] "").HoldsNumerals := List.forall_mem_nil _
    exact h.openFrame hempty htake
  | _ => nomatch htake

/-- A step keeps that all holds numerals. -/
theorem HoldsNumerals.step {t : Token} (h : r.HoldsNumerals) (ht : t.HoldsNumerals) (hstep : r.step t = .ok r') :
    r'.HoldsNumerals := by
  have hgoal : ∀ goal, HoldsNumerals { r with goal := goal } := fun _ => ⟨h.frames, h.result⟩
  unfold Reading.step at hstep
  split at hstep
  case h_1 | h_3 => exact h.takeValue ht hstep
  case h_2 | h_5 | h_6 | h_15 => exact h.close hstep
  case h_4 | h_13 | h_14 =>
    cases hstep
    exact hgoal _
  case h_7 | h_8 => exact h.takeKey hstep
  case h_9 | h_10 => exact h.takeVoidKey hstep
  all_goals nomatch hstep

/-- So does a run, whether it ends in a fault or not. -/
theorem HoldsNumerals.run {ts : List Token} (h : r.HoldsNumerals) (hts : ∀ t ∈ ts, t.HoldsNumerals) :
    (r.run ts).1.HoldsNumerals := by
  induction ts generalizing r with
  | nil => exact h
  | cons t ts ih =>
    obtain ⟨ht, hts⟩ := List.forall_mem_cons.mp hts
    unfold Reading.run
    split
    next next hstep => exact ih (h.step ht hstep) hts
    next => exact h

end Reading

/-- A tree that was read from a text holds numerals, also if some of its values are ignored. -/
theorem holdsNumerals_of_parseIgnoring {ignores : List Frame → Bool} {text : String} {j : Json}
    (h : parseIgnoring ignores text = .ok j) : j.HoldsNumerals := by
  have hstart : (Reading.start ignores).HoldsNumerals := ⟨List.forall_mem_nil _, .null⟩
  have hrun := hstart.run (holdsNumerals_tokens text.toList)
  unfold parseIgnoring at h
  split at h
  next r heq =>
    cases h
    rw [heq] at hrun
    exact hrun.result
  next => nomatch h

/-- A tree that was read from a text holds numerals. -/
theorem holdsNumerals_of_parse {text : String} {j : Json} (h : parse text = .ok j) : j.HoldsNumerals :=
  holdsNumerals_of_parseIgnoring h

end VisualEncoding.Json
