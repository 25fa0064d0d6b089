import VisualEncoding.Json.Reading
import VisualEncoding.Proofs.Json.Canonical
import VisualEncoding.Proofs.Outcome
import VisualEncoding.Proofs.Scalar.Integers

/-!
# What is read is restored

A value is restored if it is read back from its own JSON (`Json.Restores`), and a reader and a writer go together
if whatever is read from a well-formed tree is restored (`Json.RoundTrips`). A value may have many spellings, of
which only one is written: integers are read as doubles, arrays as records, and a text may mean an instant.

The basic readers keep what they read, lists keep their items, and a union keeps a value if the alternatives before
it refuse what it is written as.
-/

namespace VisualEncoding.Json

variable {β γ : Type} {j : Json}

/-- A value that is read back from its own JSON. -/
def Restores (read : Reader β) (write : β → Json) (b : β) : Prop := read (write b).canonical = .ok b

/-- What is read from a well-formed tree is restored. -/
def RoundTrips (read : Reader β) (write : β → Json) : Prop :=
  ∀ j b, j.WellFormed → read j = .ok b → Restores read write b

/-- A value that falls back to one that is restored. -/
theorem restores_getD {read : Reader β} {write : β → Json} {value : Option β} {b : β}
    (h : ∀ x, value = some x → Restores read write x) (hb : Restores read write b) :
    Restores read write (value.getD b) := by
  cases value with
  | none => exact hb
  | some x => exact h x rfl

/-! ## Truth values, texts and numbers -/

theorem restores_bool (b : Bool) : Restores readBool .bool b := rfl

theorem restores_string (s : String) : Restores readString .string s := rfl

theorem ofFloat_of_isFinite {x : Float} (h : x.isFinite = true) : ofFloat x = .float x := if_pos h

theorem restores_float_iff {x : Float} : Restores readFloat ofFloat x ↔ x.isFinite = true := by
  unfold Restores ofFloat
  cases x.isFinite with
  | true => exact ⟨fun _ => rfl, fun _ => rfl⟩
  | false => exact ⟨nofun, nofun⟩

theorem restores_floatOfInt {n : Int} (h : n.natAbs < 2 ^ 64) : Restores readFloat ofFloat (Decimal.floatOfInt n) :=
  restores_float_iff.mpr (Double.isFinite_floatOfInt h)

theorem isFinite_of_readFloat {x : Float} (hj : j.WellFormed) (h : readFloat j = .ok x) : x.isFinite = true := by
  cases hj with
  | int hn =>
    cases h
    exact Double.isFinite_floatOfInt hn
  | float hx =>
    cases h
    exact hx
  | _ => nomatch h

theorem readInt_eq_ok {lo hi n : Int} {expected : String} (h : readInt lo hi expected j = .ok n) :
    lo ≤ n ∧ n ≤ hi := by
  unfold readInt at h
  split at h
  · split at h
    next hrange =>
      cases h
      exact hrange
    next => nomatch h
  · nomatch h

theorem readInt_int {lo hi n : Int} (expected : String) (hlo : lo ≤ n) (hhi : n ≤ hi) :
    readInt lo hi expected (.int n) = .ok n :=
  if_pos ⟨hlo, hhi⟩

theorem restores_word {n : Nat} (h : n ≤ 0xFFFFFFFF) : Restores readWord (fun n : Nat => .int n) n := by
  show (readInt 0 0xFFFFFFFF "u32" (.int n)).map Int.toNat = .ok n
  rw [readInt_int _ (by omega) (by omega)]
  rfl

theorem roundTrips_bool : RoundTrips readBool .bool := fun _ b _ _ => restores_bool b

theorem roundTrips_string : RoundTrips readString .string := fun _ s _ _ => restores_string s

theorem roundTrips_float : RoundTrips readFloat ofFloat :=
  fun _ _ hj h => restores_float_iff.mpr (isFinite_of_readFloat hj h)

theorem roundTrips_word : RoundTrips readWord (fun n : Nat => .int n) := by
  intro j n hj h
  obtain ⟨i, hi, rfl⟩ := Outcome.map_eq_ok_iff.mp h
  obtain ⟨hlo, hhi⟩ := readInt_eq_ok hi
  exact restores_word (by omega)

theorem roundTrips_short : RoundTrips readShort .int := by
  intro j n hj h
  obtain ⟨hlo, hhi⟩ := readInt_eq_ok h
  exact readInt_int _ hlo hhi

theorem required_eq_ok_iff {name : String} {b : β} {b? : Option β} : required name b? = .ok b ↔ b? = some b := by
  cases b? with
  | none => exact ⟨nofun, nofun⟩
  | some c =>
    show Except.ok c = Except.ok b ↔ _
    rw [Except.ok.injEq, Option.some.injEq]

/-! ## Lists -/

theorem restores_list {read : Reader β} {write : β → Json} {bs : List β} (h : ∀ b ∈ bs, Restores read write b) :
    Restores (readList read) (fun bs => .array (bs.map write)) bs := by
  unfold Restores
  rw [canonical_array, List.map_map]
  show (bs.map (canonical ∘ write)).mapM read = .ok bs
  rw [Outcome.mapM_eq_ok_iff, List.forall₂_map_left_iff, List.forall₂_same]
  exact h

theorem roundTrips_list {read : Reader β} {write : β → Json} (h : RoundTrips read write) :
    RoundTrips (readList read) (fun bs => .array (bs.map write)) := by
  intro j bs hj hread
  refine restores_list fun b hb => ?_
  cases hj with
  | array hitems =>
    obtain ⟨i, hi, hib⟩ := Outcome.exists_mem_of_forall₂ (Outcome.mapM_eq_ok_iff.mp hread) hb
    exact h i b (hitems i hi) hib
  | _ => nomatch hread

/-! ## Unions -/

section Unions

variable {union : String} {read : Reader β} {readers : List (Reader β)} {b : β}

/-- A union takes what its first alternative accepts. -/
theorem readUnion_of_ok (h : read j = .ok b) : readUnion union (read :: readers) j = .ok b := by
  unfold readUnion
  rw [List.findSome?_cons, h]
  rfl

/-- What the first alternative refuses is left to the others. -/
theorem readUnion_of_error {e : Mismatch} (h : read j = .error e) :
    readUnion union (read :: readers) j = readUnion union readers j := by
  unfold readUnion
  rw [List.findSome?_cons, h]
  rfl

theorem readUnion_eq_ok (h : readUnion union (read :: readers) j = .ok b) :
    read j = .ok b ∨ readUnion union readers j = .ok b := by
  cases hread : read j with
  | ok c =>
    rw [readUnion_of_ok hread] at h
    exact Or.inl h
  | error e =>
    rw [readUnion_of_error hread] at h
    exact Or.inr h

theorem readUnion_nil : readUnion union ([] : List (Reader β)) j ≠ .ok b := nofun

end Unions

end VisualEncoding.Json
