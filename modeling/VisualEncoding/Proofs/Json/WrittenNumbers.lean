import VisualEncoding.Proofs.Calendar.Timestamps
import VisualEncoding.Proofs.Json.Texts
import VisualEncoding.Proofs.Json.WrittenTexts
import VisualEncoding.Proofs.Scalar.Decimals
import VisualEncoding.Proofs.Scalar.Wholes

/-!
# Written numbers are read back

In either layout the digits of a number are read as one word, which is scaled by a power of ten (`IsScaled`). That
takes two roundings, of the word and of the scaled word. If the number has fifteen digits or fewer and not too many
places, the word and the power of ten are doubles, and a single rounding is left (`exists_scaleByTen`). It finds the
double that the digits were written for:

> `parse_compact_toFloat`: the double nearest to a number of fifteen digits is read from its text again.
-/

namespace VisualEncoding.Json

open Decimal (digitsValue takeDigits positional scientific)
open Double (IsRounded IsRepresentable value)

/-! ## Scaling -/

variable {word n : ℕ}

/-- A word that a double holds is scaled down with one rounding. -/
theorem exists_scaleByTen (hword : IsRepresentable word) (hlt : word < 2 ^ 64) (hpos : 0 < n) (hn : n ≤ 22) :
    ∃ y, scaleByTen (UInt64.ofNat word).toFloat (-n) = some y ∧ IsRounded y (word / 10 ^ n) := by
  have hx := Double.isRounded_toFloat (UInt64.ofNat word)
  rw [UInt64.toNat_ofNat_of_lt' hlt] at hx
  have hpower := (Double.isRounded_nearest (n := n) (by omega)).isFinite
  have hten := Double.value_nearest_ten hn
  have hnonzero : value (Decimal.nearest 1 n) ≠ 0 := by
    rw [hten]
    positivity
  have hless : |value (UInt64.ofNat word).toFloat / value (Decimal.nearest 1 n)| < Double.overflow := by
    rw [hx.value_eq hword, hten, abs_of_nonneg (by positivity)]
    have hle : (word : ℚ) ≤ 2 ^ 64 := by exact_mod_cast hlt.le
    calc (word : ℚ) / 10 ^ n ≤ word := div_le_self (Nat.cast_nonneg _) (one_le_pow₀ (by norm_num))
      _ ≤ 2 ^ 1023 := hle.trans (pow_le_pow_right₀ one_le_two (by decide))
      _ < Double.overflow := Double.pow_lt_overflow
  have hquotient := Double.isRounded_div hx.isFinite hpower hnonzero hless
  rw [hx.value_eq hword, hten] at hquotient
  refine ⟨_, ?_, hquotient⟩
  rw [scaleByTen, dif_pos (by omega), if_neg (by omega), neg_neg]

/-! ## Digits -/

variable {ds whole places : List Char} {negative : Bool} {exponent : ℤ}

theorem isDigit_of_mem_toDigits {c : Char} {n : ℕ} (h : c ∈ Nat.toDigits 10 n) : c.isDigit = true :=
  Nat.isDigit_of_mem_toDigits (by decide) (by decide) h

theorem isDigit_of_mem_zeros {c : Char} {n : ℕ} (h : c ∈ List.replicate n '0') : c.isDigit = true := by
  rw [(List.mem_replicate.mp h).2]
  rfl

theorem digitsValue_toDigits (n : ℕ) : digitsValue (Nat.toDigits 10 n) = n := Nat.ofDigitChars_ten_toDigits

theorem digitsValue_append (ds places : List Char) :
    digitsValue (ds ++ places) = Nat.ofDigitChars 10 places (digitsValue ds) :=
  Nat.ofDigitChars_append 0

theorem le_ofDigitChars (start : ℕ) (ds : List Char) : start ≤ Nat.ofDigitChars 10 ds start := by
  induction ds generalizing start with
  | nil => exact le_rfl
  | cons c ds ih =>
    refine le_trans ?_ (ih (10 * start + (c.toNat - '0'.toNat)))
    omega

/-- Digits that fit into a word are appended to it. -/
theorem fillWord_eq {start : ℕ} (h : Nat.ofDigitChars 10 ds start < 2 ^ 64) :
    fillWord start ds = (Nat.ofDigitChars 10 ds start, 0) := by
  induction ds generalizing start with
  | nil => rfl
  | cons c ds ih =>
    have hone : digitsValue [c] = c.toNat - '0'.toNat := by
      show 10 * 0 + (c.toNat - '0'.toNat) = _
      omega
    have hgrown : 10 * start + (c.toNat - '0'.toNat) < 0x10000000000000000 := (le_ofDigitChars _ ds).trans_lt h
    show ds.foldl _
      (if (0 == 0 && decide (10 * start + digitsValue [c] < 0x10000000000000000)) = true then _ else _) = _
    rw [hone, decide_eq_true hgrown]
    exact ih h

/-- The digits of a number that fits into a word are scaled as one. -/
theorem doubleOf_eq (hfit : digitsValue (whole ++ places) < 2 ^ 64) (hplace : exponent - places.length = -(n : ℤ))
    (hn : n ≤ 22) :
    doubleOf negative whole places exponent
      = (scaleByTen (UInt64.ofNat (digitsValue (whole ++ places))).toFloat (-n)).map fun x =>
          if negative then -x else x := by
  rw [digitsValue_append] at hfit ⊢
  have hwhole : fillWord 0 whole = (digitsValue whole, 0) := fillWord_eq ((le_ofDigitChars _ places).trans_lt hfit)
  have hscale :
      max (-0x80000000) (min 0x80000000 (((0 : ℕ) : ℤ) - (places.length - (0 : ℕ)) + exponent)) = -(n : ℤ) := by omega
  unfold doubleOf
  rw [hwhole]
  dsimp only
  rw [fillWord_eq hfit]
  dsimp only
  rw [hscale]

/-! ## Scanning -/

theorem takeDigits_of_all (hds : ∀ c ∈ ds, c.isDigit = true) : takeDigits ds = (ds, []) :=
  Prod.ext (List.takeWhile_eq_self_iff.mpr hds) (List.dropWhile_eq_nil_iff.mpr hds)

/-- Digits that may stand before a point: there are some, and only a single one may be zero. -/
structure IsWhole (whole : List Char) : Prop where
  digits : ∀ c ∈ whole, c.isDigit = true
  ne_nil : whole ≠ []
  no_zero : ∀ c cs, whole ≠ '0' :: c :: cs

theorem IsWhole.scanNumber_append {c : Char} (h : IsWhole whole) (hc : c.isDigit = false) (rest : List Char) :
    scanNumber negative (whole ++ c :: rest) = scanTail negative whole (c :: rest) := by
  unfold scanNumber
  rw [Calendar.Timestamp.takeDigits_append h.digits hc]
  dsimp only
  split
  next => exact absurd rfl h.ne_nil
  next => exact absurd rfl (h.no_zero _ _)
  next => rfl

/-- A numeral with a point. -/
theorem IsWhole.scanNumber_point (h : IsWhole whole) (hplaces : ∀ c ∈ places, c.isDigit = true) (hne : places ≠ []) :
    scanNumber negative (whole ++ '.' :: places) = numberToken ((doubleOf negative whole places 0).map .float) [] := by
  have hsome : places.isEmpty = false := List.isEmpty_eq_false_iff.mpr hne
  rw [h.scanNumber_append rfl, scanTail, takeDigits_of_all hplaces]
  dsimp only
  rw [hsome]
  rfl

/-- A numeral with a negative exponent. -/
theorem scanExponent_toDigits (n : ℕ) :
    scanExponent negative whole places ('-' :: Nat.toDigits 10 n)
      = numberToken ((doubleOf negative whole places (-n)).map .float) [] := by
  have hsome : (Nat.toDigits 10 n).isEmpty = false := List.isEmpty_eq_false_iff.mpr Nat.toDigits_ne_nil
  have hsign : Decimal.takeSign ('-' :: Nat.toDigits 10 n) = (true, Nat.toDigits 10 n) := rfl
  unfold scanExponent
  rw [hsign]
  dsimp only
  rw [takeDigits_of_all fun _ => isDigit_of_mem_toDigits]
  dsimp only
  rw [hsome, digitsValue_toDigits]
  rfl

theorem IsWhole.scanNumber_exponent (h : IsWhole whole) (n : ℕ) :
    scanNumber negative (whole ++ 'e' :: '-' :: Nat.toDigits 10 n)
      = numberToken ((doubleOf negative whole [] (-n)).map .float) [] := by
  rw [h.scanNumber_append rfl]
  exact scanExponent_toDigits n

theorem IsWhole.scanNumber_point_exponent (h : IsWhole whole) (hplaces : ∀ c ∈ places, c.isDigit = true)
    (hne : places ≠ []) (n : ℕ) :
    scanNumber negative (whole ++ '.' :: (places ++ 'e' :: '-' :: Nat.toDigits 10 n))
      = numberToken ((doubleOf negative whole places (-n)).map .float) [] := by
  have hsome : places.isEmpty = false := List.isEmpty_eq_false_iff.mpr hne
  rw [h.scanNumber_append rfl, scanTail, Calendar.Timestamp.takeDigits_append hplaces rfl]
  dsimp only
  rw [hsome]
  exact scanExponent_toDigits n

/-! ## Layouts -/

/-- A positive number is written without leading zeros. -/
theorem toDigits_ne_zero_cons {n : ℕ} (hpos : 0 < n) (cs : List Char) : Nat.toDigits 10 n ≠ '0' :: cs := by
  induction n using Nat.strongRecOn generalizing cs with
  | ind n ih =>
    rcases Nat.lt_or_ge n 10 with hlt | hge
    · rw [Nat.toDigits_of_lt_base hlt]
      have hdigit : ∀ d < 10, 0 < d → Nat.digitChar d ≠ '0' := by decide
      exact fun h => hdigit n hlt hpos (List.cons.inj h).1
    · rw [Nat.toDigits_of_base_le (by decide) hge]
      intro h
      cases hfront : Nat.toDigits 10 (n / 10) with
      | nil => exact Nat.toDigits_ne_nil hfront
      | cons d ds =>
        rw [hfront] at h
        obtain ⟨rfl, -⟩ := List.cons.inj h
        exact ih (n / 10) (by omega) (by omega) ds hfront

theorem exists_first_digit {n : ℕ} (hpos : 0 < n) : ∃ d ds, Nat.toDigits 10 n = d :: ds ∧ d ≠ '0' := by
  cases hdigits : Nat.toDigits 10 n with
  | nil => exact absurd hdigits Nat.toDigits_ne_nil
  | cons d ds =>
    refine ⟨d, ds, rfl, ?_⟩
    rintro rfl
    exact toDigits_ne_zero_cons hpos ds hdigits

theorem isWhole_zero : IsWhole ['0'] :=
  ⟨List.forall_mem_singleton.mpr rfl, List.cons_ne_nil _ _, fun _ _ h => nomatch h⟩

/-- A positive number with zeros behind it. -/
theorem isWhole_append_zeros {n : ℕ} (hpos : 0 < n) (k : ℕ) : IsWhole (Nat.toDigits 10 n ++ List.replicate k '0') where
  digits c hc := (List.mem_append.mp hc).elim isDigit_of_mem_toDigits isDigit_of_mem_zeros
  ne_nil h := Nat.toDigits_ne_nil (List.append_eq_nil_iff.mp h).1
  no_zero c cs h := by
    obtain ⟨d, ds, hdigits, hd⟩ := exists_first_digit hpos
    rw [hdigits] at h
    exact hd (List.cons.inj h).1

/-- The first digits of a positive number. -/
theorem isWhole_take {n : ℕ} (hpos : 0 < n) (k : ℕ) : IsWhole ((Nat.toDigits 10 n).take (k + 1)) where
  digits c hc := isDigit_of_mem_toDigits (List.mem_of_mem_take hc)
  ne_nil h := (List.take_eq_nil_iff.mp h).elim (Nat.succ_ne_zero k) Nat.toDigits_ne_nil
  no_zero c cs h := by
    obtain ⟨d, ds, hdigits, hd⟩ := exists_first_digit hpos
    rw [hdigits] at h
    exact hd (List.cons.inj h).1

/-- A text that is read as a word that is scaled down. -/
def IsScaled (text : List Char) (word n : ℕ) : Prop :=
  ∀ negative, ∃ whole places exponent,
    scanNumber negative text = numberToken ((doubleOf negative whole places exponent).map .float) [] ∧
      digitsValue (whole ++ places) = word ∧ exponent - places.length = -(n : ℤ)

variable {digits : ℕ} {top k : ℤ}

/-- A whole number with a point and a zero behind it. -/
theorem isScaled_whole (hpos : 0 < digits) (hk : 0 ≤ k) (htop : top = k + (Nat.toDigits 10 digits).length - 1) :
    IsScaled (positional (Nat.toDigits 10 digits) top true) (digits * 10 ^ (k.toNat + 1)) 1 := by
  intro negative
  have hlength := Nat.length_toDigits_pos (b := 10) (n := digits)
  have htake : (Nat.toDigits 10 digits).take (top.toNat + 1) = Nat.toDigits 10 digits :=
    List.take_of_length_le (by omega)
  have hdrop : (Nat.toDigits 10 digits).drop (top.toNat + 1) = [] := List.drop_of_length_le (by omega)
  have hcount : top.toNat + 1 - (Nat.toDigits 10 digits).length = k.toNat := by omega
  have hlayout : positional (Nat.toDigits 10 digits) top true
      = (Nat.toDigits 10 digits ++ List.replicate k.toNat '0') ++ '.' :: ['0'] := by
    unfold positional
    rw [if_neg (by omega), htake, hdrop]
    dsimp only
    rw [hcount]
    rfl
  refine ⟨Nat.toDigits 10 digits ++ List.replicate k.toNat '0', ['0'], 0, ?_, ?_, rfl⟩
  · rw [hlayout]
    exact (isWhole_append_zeros hpos _).scanNumber_point (List.forall_mem_singleton.mpr rfl) (List.cons_ne_nil _ _)
  · rw [List.append_assoc, ← List.replicate_succ', digitsValue_append, digitsValue_toDigits,
      Nat.ofDigitChars_replicate_zero, Nat.mul_comm]

/-- Digits on both sides of the point. -/
theorem isScaled_split (hpos : 0 < digits) (hk : k < 0) (htop : top = k + (Nat.toDigits 10 digits).length - 1)
    (hnonneg : 0 ≤ top) : IsScaled (positional (Nat.toDigits 10 digits) top true) digits (-k).toNat := by
  intro negative
  have hshort : ((Nat.toDigits 10 digits).take (top.toNat + 1)).length = top.toNat + 1 :=
    List.length_take_of_le (by omega)
  have hrest : (Nat.toDigits 10 digits).drop (top.toNat + 1) ≠ [] := fun h => by
    have := List.drop_eq_nil_iff.mp h
    omega
  have hlayout : positional (Nat.toDigits 10 digits) top true
      = (Nat.toDigits 10 digits).take (top.toNat + 1) ++ '.' :: (Nat.toDigits 10 digits).drop (top.toNat + 1) := by
    unfold positional
    rw [if_neg (by omega)]
    dsimp only
    rw [hshort, Nat.sub_self, List.replicate_zero, List.append_nil, List.isEmpty_eq_false_iff.mpr hrest]
    rfl
  refine ⟨(Nat.toDigits 10 digits).take (top.toNat + 1), (Nat.toDigits 10 digits).drop (top.toNat + 1), 0, ?_, ?_, ?_⟩
  · rw [hlayout]
    exact (isWhole_take hpos _).scanNumber_point (fun c hc => isDigit_of_mem_toDigits (List.mem_of_mem_drop hc)) hrest
  · rw [List.take_append_drop]
    exact digitsValue_toDigits digits
  · rw [List.length_drop]
    omega

/-- Zeros before the digits. -/
theorem isScaled_small (htop : top = k + (Nat.toDigits 10 digits).length - 1) (hneg : top < 0) :
    IsScaled (positional (Nat.toDigits 10 digits) top true) digits (-k).toNat := by
  intro negative
  have hplaces : ∀ c ∈ List.replicate (-top - 1).toNat '0' ++ Nat.toDigits 10 digits, c.isDigit = true :=
    fun c hc => (List.mem_append.mp hc).elim isDigit_of_mem_zeros isDigit_of_mem_toDigits
  refine ⟨['0'], List.replicate (-top - 1).toNat '0' ++ Nat.toDigits 10 digits, 0, ?_, ?_, ?_⟩
  · unfold positional
    rw [if_pos hneg]
    exact isWhole_zero.scanNumber_point hplaces fun h => Nat.toDigits_ne_nil (List.append_eq_nil_iff.mp h).2
  · show Nat.ofDigitChars 10 ('0' :: (List.replicate (-top - 1).toNat '0' ++ Nat.toDigits 10 digits)) 0 = digits
    rw [← List.cons_append, ← List.replicate_succ, Nat.ofDigitChars_append, Nat.ofDigitChars_replicate_zero,
      Nat.mul_zero, Nat.ofDigitChars_ten_toDigits]
  · rw [List.length_append, List.length_replicate]
    omega

/-- A negative exponent. -/
theorem isScaled_scientific (hpos : 0 < digits) (htop : top = k + (Nat.toDigits 10 digits).length - 1)
    (hneg : top < 0) : IsScaled (scientific (Nat.toDigits 10 digits) top true) digits (-k).toNat := by
  intro negative
  have hvalue := digitsValue_toDigits digits
  have hdigits : ∀ c ∈ Nat.toDigits 10 digits, c.isDigit = true := fun _ => isDigit_of_mem_toDigits
  have hfirst := isWhole_take hpos 0
  unfold scientific
  rw [if_pos hneg]
  match hds : Nat.toDigits 10 digits with
  | [] => exact absurd hds Nat.toDigits_ne_nil
  | [d] =>
    rw [hds] at hfirst hvalue htop
    refine ⟨[d], [], -top.natAbs, hfirst.scanNumber_exponent _, ?_, ?_⟩
    · rwa [List.append_nil]
    · simp only [List.length_cons, List.length_nil] at htop ⊢
      omega
  | d :: p :: places =>
    rw [hds] at hfirst hvalue htop hdigits
    refine ⟨[d], p :: places, -top.natAbs, hfirst.scanNumber_point_exponent
      (fun c hc => hdigits c (List.mem_cons_of_mem _ hc)) (List.cons_ne_nil _ _) _, hvalue, ?_⟩
    simp only [List.length_cons] at htop ⊢
    omega

/-- The text of digits with a power of ten. -/
def laidOut (digits : ℕ) (k : ℤ) : List Char :=
  let ds := Nat.toDigits 10 digits
  let top := k + ds.length - 1
  if numberLayout.isPositional top then positional ds top true else scientific ds top true

theorem isPositional_iff (top : ℤ) : numberLayout.isPositional top = true ↔ -5 ≤ top ∧ top ≤ 15 := by
  show (decide (-5 ≤ top) && decide (top ≤ 15)) = true ↔ _
  rw [Bool.and_eq_true, decide_eq_true_eq, decide_eq_true_eq]

theorem exists_isScaled_of_neg (hpos : 0 < digits) (hdigits : digits ≤ 10 ^ 15) (hk : -22 ≤ k) (hneg : k < 0) :
    ∃ word n : ℕ, 0 < n ∧ n ≤ 22 ∧ word < 2 ^ 64 ∧ IsRepresentable word ∧ (word : ℚ) / 10 ^ n = digits * 10 ^ k ∧
      IsScaled (laidOut digits k) word n := by
  have hlength : (Nat.toDigits 10 digits).length ≤ 16 :=
    (Nat.length_toDigits_le_iff (by decide) (by decide)).mpr (by omega)
  have hrepresentable : IsRepresentable digits := by
    exact_mod_cast Double.isRepresentable_intCast (n := digits) (abs_le.mpr ⟨by omega, by omega⟩)
  refine ⟨digits, (-k).toNat, by omega, by omega, by omega, hrepresentable, ?_, ?_⟩
  · rw [← zpow_natCast, Int.toNat_of_nonneg (by omega), zpow_neg, div_inv_eq_mul]
  · unfold laidOut
    dsimp only
    split
    next hpositional =>
      obtain ⟨hlow, hhigh⟩ := (isPositional_iff _).mp hpositional
      rcases lt_or_ge (k + (Nat.toDigits 10 digits).length - 1) 0 with hsmall | hlarge
      · exact isScaled_small rfl hsmall
      · exact isScaled_split hpos hneg rfl hlarge
    next hscientific =>
      rw [isPositional_iff] at hscientific
      exact isScaled_scientific hpos rfl (by omega)

/-- A whole number of up to sixteen places. -/
theorem exists_isScaled_of_nonneg {p : ℕ} (hpos : 0 < digits) (hvalue : digits * 10 ^ p ≤ 15 * 10 ^ 14) :
    ∃ word n : ℕ, 0 < n ∧ n ≤ 22 ∧ word < 2 ^ 64 ∧ IsRepresentable word ∧
      (word : ℚ) / 10 ^ n = digits * 10 ^ (p : ℤ) ∧ IsScaled (laidOut digits p) word n := by
  have hsome := Nat.length_toDigits_pos (b := 10) (n := digits)
  have htop : (Nat.toDigits 10 digits).length + p ≤ 16 := by
    by_contra hmore
    have hlong : 10 ^ ((Nat.toDigits 10 digits).length - 1) ≤ digits := (Decimal.digitCount_bounds hpos).1
    have hlarge : 10 ^ 16 ≤ digits * 10 ^ p :=
      calc 10 ^ 16 ≤ 10 ^ ((Nat.toDigits 10 digits).length - 1 + p) := Nat.pow_le_pow_right (by decide) (by omega)
        _ = 10 ^ ((Nat.toDigits 10 digits).length - 1) * 10 ^ p := pow_add _ _ _
        _ ≤ digits * 10 ^ p := Nat.mul_le_mul_right _ hlong
    omega
  have hshift : digits * 10 ^ (p + 1) = 10 * (digits * 10 ^ p) := by rw [pow_succ, ← mul_assoc, mul_comm]
  refine ⟨digits * 10 ^ (p + 1), 1, by decide, by decide, by omega, ?_, ?_, ?_⟩
  · have hfives := Double.isRepresentable_mul_zpow (n := 5 * (digits * 10 ^ p : ℕ)) (e := 1)
      (abs_le.mpr ⟨by omega, by omega⟩) (by decide)
    have hsame : ((5 * (digits * 10 ^ p : ℕ) : ℤ) : ℚ) * 2 ^ (1 : ℤ) = (digits * 10 ^ (p + 1) : ℕ) := by
      push_cast
      ring
    rwa [hsame] at hfives
  · push_cast
    rw [zpow_natCast, pow_succ]
    field_simp
  · unfold laidOut
    dsimp only
    rw [if_pos ((isPositional_iff _).mpr ⟨by omega, by omega⟩)]
    exact isScaled_whole hpos (Int.natCast_nonneg p) rfl

/-- The digits of a number that is not too large or small are read as a word that a double holds. -/
theorem exists_isScaled (hpos : 0 < digits) (hdigits : digits ≤ 10 ^ 15) (hk : -22 ≤ k)
    (hvalue : (digits : ℚ) * 10 ^ k ≤ 15 * 10 ^ 14) :
    ∃ word n : ℕ, 0 < n ∧ n ≤ 22 ∧ word < 2 ^ 64 ∧ IsRepresentable word ∧ (word : ℚ) / 10 ^ n = digits * 10 ^ k ∧
      IsScaled (laidOut digits k) word n := by
  rcases lt_or_ge k 0 with hneg | hnonneg
  · exact exists_isScaled_of_neg hpos hdigits hk hneg
  · obtain ⟨p, rfl⟩ := Int.eq_ofNat_of_zero_le hnonneg
    rw [zpow_natCast] at hvalue
    exact exists_isScaled_of_nonneg hpos (by exact_mod_cast hvalue)

/-! ## Numbers -/

variable {x : Float} {m d : ℕ} {e : ℤ} {hm : 0 < m}

/-- Such digits are a decimal number of few digits. -/
theorem exists_decimal (hdigits : digits ≤ 10 ^ 15) (hk : -22 ≤ k)
    (hvalue : (digits : ℚ) * 10 ^ k ≤ 15 * 10 ^ 14) :
    ∃ a j : ℕ, a < 2 ^ 53 ∧ j ≤ 1074 ∧ (digits : ℚ) * 10 ^ k = a / 10 ^ j := by
  rcases lt_or_ge k 0 with hneg | hnonneg
  · refine ⟨digits, (-k).toNat, by omega, by omega, ?_⟩
    rw [← zpow_natCast, Int.toNat_of_nonneg (by omega), zpow_neg, div_inv_eq_mul]
  · obtain ⟨p, rfl⟩ := Int.eq_ofNat_of_zero_le hnonneg
    rw [zpow_natCast] at hvalue ⊢
    have hwhole : digits * 10 ^ p ≤ 15 * 10 ^ 14 := by exact_mod_cast hvalue
    refine ⟨digits * 10 ^ p, 0, by omega, by decide, ?_⟩
    rw [pow_zero, div_one]
    push_cast
    rfl

/-- A number of fifteen digits is read from the text of its double. -/
theorem scanNumber_magnitude (hd : d < 10 ^ 15) (hpos : 0 < d) (hn : n ≤ 21)
    (hx : x.toModel.unpack = .finite .positive m e hm) (h : IsRounded x (d / 10 ^ n)) :
    scanNumber negative (numberLayout.magnitude m e) = (.atom (.float (if negative then -x else x)), []) := by
  obtain ⟨hrounded, hdigits, hleast⟩ := Double.shortest_of_isRounded hd hpos (by omega) hx h
  have hwithin := Double.isWithin_of_isRounded hx hrounded
  have hlayout :
      numberLayout.magnitude m e = laidOut (Decimal.shortest m e).digits (Decimal.shortest m e).exponent := by
    unfold Decimal.Layout.magnitude
    rw [if_neg (by simpa using hm.ne')]
    rfl
  rw [hlayout]
  generalize (Decimal.shortest m e).digits = digits at *
  generalize (Decimal.shortest m e).exponent = k at *
  have hvalue : (digits : ℚ) * 10 ^ k ≤ 15 * 10 ^ 14 := by
    have hle : (d : ℚ) / 10 ^ n ≤ (10 ^ 15 : ℤ) := by
      refine (div_le_self (Nat.cast_nonneg _) (one_le_pow₀ (by norm_num))).trans ?_
      exact_mod_cast hd.le
    have hx15 := h.value_le (Double.isRepresentable_intCast (by decide)) hle
    have hhalves := Double.le_three_halves hm hwithin
    rw [← Double.value_of_unpack hx] at hhalves
    push_cast at hx15
    linarith
  have hsome : 0 < digits := by
    refine Nat.pos_of_ne_zero fun hzero => ?_
    rw [hzero, Nat.cast_zero, zero_mul] at hwithin
    exact absurd (hwithin.pos hm) (lt_irrefl _)
  obtain ⟨word, j, hj, hj22, hlt, hword, hscaled, hscan⟩ := exists_isScaled hsome hdigits (by omega) hvalue
  obtain ⟨y, hscale, hy⟩ := exists_scaleByTen hword hlt hj hj22
  obtain ⟨a, j', ha, hj', hshort⟩ := exists_decimal hdigits (by omega) hvalue
  -- both doubles are rounded from the digits
  have hsame : y = x := by
    rw [hscaled, hshort] at hy
    rw [hshort] at hrounded
    refine Double.eq_of_value_eq hy.isFinite hrounded.isFinite (hy.value_unique ha hj' hrounded) ?_
    rw [Double.value_of_unpack hx]
    positivity
  obtain ⟨whole, places, exponent, hread, rfl, hplace⟩ := hscan negative
  rw [hread, doubleOf_eq hlt hplace hj22, hscale, hsame]
  rfl

/-- What is read as a number starts with a digit. -/
theorem isDigit_of_scanNumber {c : Char} {cs rest : List Char} {j : Json}
    (h : scanNumber false (c :: cs) = (.atom j, rest)) : c.isDigit = true := by
  by_contra hnot
  unfold scanNumber takeDigits at h
  rw [List.takeWhile_cons_of_neg hnot] at h
  nomatch h

theorem isSpace_of_isDigit {c : Char} (hc : c.isDigit = true) : isSpace c = false := by
  unfold isSpace
  simp only [Bool.or_eq_false_iff, beq_eq_false_iff_ne]
  refine ⟨⟨⟨?_, ?_⟩, ?_⟩, ?_⟩ <;> rintro rfl <;> nomatch hc

theorem scanToken_of_isDigit {c : Char} (hc : c.isDigit = true) (cs : List Char) :
    scanToken c cs = scanNumber false (c :: cs) := by
  unfold scanToken
  split
  case h_12 => exact if_pos hc
  all_goals nomatch hc

/-- A number without a sign is read as a token. -/
theorem parse_of_scanNumber {text : String} {cs : List Char} {j : Json} (htext : text.toList = cs)
    (h : scanNumber false cs = (.atom j, [])) : parse text = .ok j := by
  cases cs with
  | nil => nomatch h
  | cons c cs =>
    have hdigit := isDigit_of_scanNumber h
    exact parse_of_atom htext (isSpace_of_isDigit hdigit) ((scanToken_of_isDigit hdigit cs).trans h)

/-- A numeral with a point is read as the double of its digits. -/
theorem parse_point {text : String} (whole places : List Char) (h : IsWhole whole)
    (hplaces : ∀ c ∈ places, c.isDigit = true) (hne : places ≠ []) (htext : text.toList = whole ++ '.' :: places)
    (hx : doubleOf false whole places 0 = some x) : parse text = .ok (.float x) := by
  refine parse_of_scanNumber htext ?_
  rw [h.scanNumber_point hplaces hne, hx]
  rfl

theorem toList_text {s : Float.Model.UnpackedFloat.Sign} (hx : x.toModel.unpack = .finite s m e hm) :
    (numberLayout.text x).toList = (if s == .negative then ['-'] else []) ++ numberLayout.magnitude m e := by
  unfold Decimal.Layout.text
  rw [Double.exact_ofFloat_eq, hx]
  exact String.toList_ofList

/-- Zero with a sign. -/
theorem parse_zero (negative : Bool) :
    parse (compact (.float (Decimal.Numeral.finite negative 0 0).toFloat))
      = .ok (.float (Decimal.Numeral.finite negative 0 0).toFloat) := by
  have hread (negative : Bool) :
      scanNumber negative (['0'] ++ '.' :: ['0']) = numberToken ((doubleOf negative ['0'] ['0'] 0).map .float) [] :=
    isWhole_zero.scanNumber_point (List.forall_mem_singleton.mpr rfl) (List.cons_ne_nil _ _)
  have hdouble : ∀ negative, doubleOf negative ['0'] ['0'] 0 = some (Decimal.Numeral.finite negative 0 0).toFloat := by
    decide +kernel
  have htext : ∀ negative, (numberLayout.text (Decimal.Numeral.finite negative 0 0).toFloat).toList
      = (if negative then ['-'] else []) ++ (['0'] ++ '.' :: ['0']) := by decide +kernel
  simp only [hdouble] at hread
  cases negative with
  | false => exact parse_of_scanNumber (htext false) (hread false)
  | true => exact parse_of_atom (htext true) rfl (hread true)

/-- **A number of fifteen digits is read from its text again**, if no more than twenty-one of them are behind the
point. -/
theorem parse_compact_toFloat (negative : Bool) (hd : d < 10 ^ 15) (hn : n ≤ 21) :
    parse (compact (.float (Decimal.Numeral.finite negative d (-n)).toFloat))
      = .ok (.float (Decimal.Numeral.finite negative d (-n)).toFloat) := by
  rcases Nat.eq_zero_or_pos d with rfl | hpos
  · have hzero : (Decimal.Numeral.finite negative 0 (-n)).toFloat = (Decimal.Numeral.finite negative 0 0).toFloat := by
      unfold Decimal.Numeral.toFloat
      dsimp only
      rw [Double.nearest_zero]
    rw [hzero]
    exact parse_zero negative
  have hrounded := Double.isRounded_nearest_div hpos hd hn
  obtain ⟨m, e, hm, hx⟩ := Double.exists_unpack_nearest hpos hd hn
  show parse (numberLayout.text (if negative then -Decimal.nearest d (-n) else Decimal.nearest d (-n)))
    = .ok (.float (if negative then -Decimal.nearest d (-n) else Decimal.nearest d (-n)))
  cases negative with
  | false => exact parse_of_scanNumber (toList_text hx) (scanNumber_magnitude hd hpos hn hx hrounded)
  | true =>
    have hneg : (-Decimal.nearest d (-n)).toModel.unpack = .finite .negative m e hm := by
      rw [Double.unpack_neg hrounded.isFinite, hx]
      rfl
    exact parse_of_atom (toList_text hneg) rfl (scanNumber_magnitude hd hpos hn hx hrounded)

end VisualEncoding.Json
