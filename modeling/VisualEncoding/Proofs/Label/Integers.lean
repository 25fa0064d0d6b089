import VisualEncoding.Proofs.Calendar.Timestamps
import VisualEncoding.Proofs.Label.Patterns
import VisualEncoding.Proofs.Scalar.Values

/-!
# Integers in labels

A format that is a text with a plain `%d` or `%i` in it is read as the characters of the text around one directive
(`readParts?_plain`), so that a label is the text around the numeral of an integer.

> `Formatter.label_of_plain_integer`: the integer is the whole number nearest to what the number stands for, halves away
> from zero, if 64 bits hold that, and else the nearest one that they hold.

Of a number from `2 ^ 63` on, or below `-2 ^ 63`, a label therefore shows another integer
(`Formatter.label_stops_at_greatest`).
-/

namespace VisualEncoding

/-! ## Numerals -/

theorem Text.trim_eq_self {cs : List Char} (h : ∀ c ∈ cs, isBlank c = false) : trim cs = cs := by
  have hskip : ∀ ds : List Char, (∀ c ∈ ds, isBlank c = false) → skipBlanks ds = ds := by
    intro ds hds
    cases ds with
    | nil => rfl
    | cons d ds => exact List.dropWhile_cons_of_neg (by simp [hds d List.mem_cons_self])
  unfold trim
  rw [hskip cs h, hskip cs.reverse (fun c hc => h c (List.mem_reverse.mp hc)), List.reverse_reverse]

namespace Decimal

/-- The numeral of an integer: its sign and the digits of its magnitude. -/
theorem toList_toString (n : ℤ) :
    (toString n).toList = (if n < 0 then ['-'] else []) ++ Nat.toDigits 10 n.natAbs := by
  rw [Int.toString_eq_repr, Int.repr_eq_if]
  split
  next h =>
    rw [if_neg (by omega), List.nil_append, show n.natAbs = n.toNat by omega]
    exact String.toList_ofList
  next h =>
    rw [if_pos (by omega), String.toList_append, show n.natAbs = (-n).toNat by omega]
    exact congrArg (['-'] ++ ·) String.toList_ofList

theorem toLower_eq_of_isDigit {c : Char} (hc : c.isDigit = true) : c.toLower = c := by
  obtain ⟨-, hle⟩ : 48 ≤ c.toNat ∧ c.toNat ≤ 57 := Char.isDigit_iff_toNat.mp hc
  have hnot : ¬ (c.val ≥ 'A'.val ∧ c.val ≤ 'Z'.val) := by
    rintro ⟨hA, -⟩
    have : 65 ≤ c.toNat := hA
    omega
  exact dif_neg hnot

/-- Digits are no word. -/
theorem unsigned?_toDigits (negative : Bool) (n : ℕ) :
    unsigned? negative (Nat.toDigits 10 n) = some (.finite negative n 0) := by
  have hdigits : ∀ c ∈ Nat.toDigits 10 n, c.isDigit = true := fun _ =>
    Nat.isDigit_of_mem_toDigits (by decide) (by decide)
  have hword : ∀ word : String, 'n' ∈ word.toList →
      (String.ofList ((Nat.toDigits 10 n).map Char.toLower) == word) = false := by
    rintro word hn
    refine beq_false_of_ne ?_
    rintro rfl
    rw [String.toList_ofList] at hn
    obtain ⟨c, hc, hlower⟩ := List.mem_map.mp hn
    rw [toLower_eq_of_isDigit (hdigits c hc)] at hlower
    subst hlower
    exact absurd (hdigits _ hc) (by decide)
  have htake : takeDigits (Nat.toDigits 10 n) = (Nat.toDigits 10 n, []) :=
    Prod.ext (List.takeWhile_eq_self_iff.mpr hdigits) (List.dropWhile_eq_nil_iff.mpr hdigits)
  have hsome : (Nat.toDigits 10 n).isEmpty = false := List.isEmpty_eq_false_iff.mpr Nat.toDigits_ne_nil
  have hvalue : digitsValue (Nat.toDigits 10 n) = n := Nat.ofDigitChars_ten_toDigits
  unfold unsigned?
  dsimp only
  rw [hword "inf" (by decide), hword "infinity" (by decide), hword "nan" (by decide), htake]
  show (if ((Nat.toDigits 10 n).isEmpty && true) = true then none
    else some (Numeral.finite negative (digitsValue (Nat.toDigits 10 n ++ [])) 0)) = _
  rw [hsome, List.append_nil, hvalue]
  rfl

/-- The numeral of an integer is read as the integer. -/
theorem Numeral.read?_toString (n : ℤ) :
    Numeral.read? (toString n) = some (.finite (decide (n < 0)) n.natAbs 0) := by
  have hdigits : ∀ c ∈ Nat.toDigits 10 n.natAbs, c.isDigit = true := fun _ =>
    Nat.isDigit_of_mem_toDigits (by decide) (by decide)
  have htrim : Text.trim (toString n).toList = (toString n).toList := by
    refine Text.trim_eq_self fun c hc => ?_
    rw [toList_toString, List.mem_append] at hc
    rcases hc with hc | hc
    · split at hc
      next =>
        rw [List.mem_singleton.mp hc]
        rfl
      next => nomatch hc
    · exact Calendar.Timestamp.isBlank_of_isDigit (hdigits c hc)
  unfold read?
  rw [htrim, toList_toString]
  by_cases hneg : n < 0
  · rw [if_pos hneg, decide_eq_true hneg]
    exact unsigned?_toDigits true _
  · have hsign : takeSign (Nat.toDigits 10 n.natAbs) = (false, Nat.toDigits 10 n.natAbs) := by
      unfold takeSign
      split
      next r h => exact absurd (hdigits '-' (h ▸ List.mem_cons_self)) (by decide)
      next r h => exact absurd (hdigits '+' (h ▸ List.mem_cons_self)) (by decide)
      next => rfl
    rw [if_neg hneg, decide_eq_false hneg, List.nil_append, hsign]
    exact unsigned?_toDigits false _

end Decimal

namespace Label

/-! ## Plain directives -/

variable {c : Char} {cs before after : List Char}

theorem readParts?_text (hc : c ≠ '%') (cs : List Char) :
    readParts? (c :: cs) = (readParts? cs).map (.text c :: ·) := by
  rw [readParts?]
  exact hc

theorem readParts?_append_text (hbefore : '%' ∉ before) (rest : List Char) :
    readParts? (before ++ rest) = (readParts? rest).map (before.map .text ++ ·) := by
  induction before with
  | nil => simp
  | cons c cs ih =>
    rw [List.mem_cons, not_or] at hbefore
    rw [List.cons_append, readParts?_text (Ne.symm hbefore.1), ih hbefore.2, Option.map_map]
    rfl

theorem takeExtent_letter (hc : c = 'd' ∨ c = 'i') (cs : List Char) :
    takeExtent (c :: cs) = (.written 0, c :: cs) := by
  have hnone : Int.bmod ((Decimal.digitsValue [] : ℕ) : ℤ) 0x100000000 = 0 := by decide
  rcases hc with rfl | rfl
  all_goals
    show (Extent.written (Int.bmod ((Decimal.digitsValue [] : ℕ) : ℤ) 0x100000000).toNat, _) = _
    rw [hnone]
    rfl

/-- A letter behind the percent sign is a directive without flags, width and precision. -/
theorem takeDirective?_letter (hc : c = 'd' ∨ c = 'i') (cs : List Char) :
    takeDirective? (c :: cs) = some ({}, cs) := by
  have hflags : takeFlags {} (c :: cs) = ({}, c :: cs) := by rcases hc with rfl | rfl <;> rfl
  unfold takeDirective?
  rw [hflags]
  dsimp only
  rw [takeExtent_letter hc]
  rcases hc with rfl | rfl <;> rfl

/-- A plain directive with a text around it. -/
theorem readParts?_plain (hc : c = 'd' ∨ c = 'i') (hbefore : '%' ∉ before) (hafter : '%' ∉ after) :
    readParts? (before ++ '%' :: c :: after) =
      some (before.map .text ++ .directive {} :: after.map .text) := by
  have htext : readParts? after = some (after.map .text) := by
    have hread := readParts?_append_text hafter []
    rw [List.append_nil, readParts?] at hread
    rw [hread, Option.map_some, List.append_nil]
  have hdirective : readParts? ('%' :: c :: after) = some (.directive {} :: after.map .text) := by
    rw [readParts?, takeDirective?_letter hc]
    dsimp only
    rw [dif_pos (show after.length < (c :: after).length from Nat.lt_succ_self _), htext, Option.map_some]
  rw [readParts?_append_text hbefore, hdirective, Option.map_some]

/-! ## What is written -/

theorem writeParts_append_text (left : Option Operand) (cs : List Char) (parts : List PatternPart) :
    writeParts left (cs.map .text ++ parts) = (writeParts left parts).map (cs ++ ·) := by
  induction cs with
  | nil =>
    show writeParts left parts = (writeParts left parts).map id
    rw [Except.map_id]
    rfl
  | cons c cs ih =>
    rw [List.map_cons, List.cons_append, writeParts, ih]
    cases writeParts left parts <;> rfl

/-- A directive without flags, width and precision writes the numeral of an integer. -/
theorem integerText_plain (n : ℤ) :
    ({} : Directive).integerText 0 n = (toString n).toList := by
  have hsign : ({} : Directive).signOf (decide (n < 0)) = if n < 0 then ['-'] else [] := by
    by_cases hneg : n < 0 <;> simp [Directive.signOf, hneg]
  show List.leftpad 0 ' ' (Directive.signOf _ (decide (n < 0)) ++ Nat.toDigits 10 n.natAbs) = _
  rw [hsign, ← Decimal.toList_toString, List.leftpad, Nat.zero_sub, List.replicate_zero, List.nil_append]

/-! ## Plain formats -/

theorem conversionOfChars?_text (hc : c ≠ '%') (cs : List Char) :
    conversionOfChars? (c :: cs) = conversionOfChars? cs := by
  rw [conversionOfChars?]
  · exact fun _ h _ => hc h
  · exact hc

section Plain

variable {format : String} (hc : c = 'd' ∨ c = 'i') (hformat : format.toList = before ++ '%' :: c :: after)
include hc hformat

/-- An integer is written by a plain directive as its numeral between the text around the directive. -/
theorem formatNumber_plain (hbefore : '%' ∉ before) (hafter : '%' ∉ after) (n : ℤ) :
    formatNumber format (.integer n) = .ok (String.ofList (before ++ (toString n).toList ++ after)) := by
  have hlast : writeParts none (after.map PatternPart.text) = .ok after := by
    have hwrite := writeParts_append_text none after []
    rw [List.append_nil, writeParts] at hwrite
    rw [hwrite]
    exact congrArg Except.ok (List.append_nil after)
  have hwrite : writeParts (some (.integer n)) (.directive {} :: after.map .text)
      = .ok ((toString n).toList ++ after) := by
    rw [writeParts, if_neg (by decide), ← integerText_plain, hlast]
    rfl
  unfold formatNumber
  rw [hformat, readParts?_plain hc hbefore hafter]
  dsimp only
  rw [writeParts_append_text, hwrite, List.append_assoc]
  rfl

/-- The first directive of the format is the plain one. -/
theorem conversionOf?_plain (hbefore : '%' ∉ before) : conversionOf? format = some .integer := by
  unfold conversionOf?
  rw [hformat]
  clear hformat
  induction before with
  | nil => rcases hc with rfl | rfl <;> rfl
  | cons b bs ih =>
    rw [List.mem_cons, not_or] at hbefore
    rw [List.cons_append, conversionOfChars?_text (Ne.symm hbefore.1), ih hbefore.2]

/-- The format does not end in a percent sign, as percentages do. -/
theorem percentPlaces?_plain (hafter : '%' ∉ after) : percentPlaces? format = none := by
  unfold percentPlaces?
  rw [hformat]
  split
  next body hbody =>
    -- it ends in the letter of the directive or in the text behind it
    have hends : (before ++ '%' :: c :: after).getLast? = some '%' := by
      rw [List.getLast?_eq_head?_reverse, hbody]
      rfl
    rw [List.append_cons, List.getLast?_append_of_ne_nil _ (List.cons_ne_nil c after)] at hends
    rcases List.mem_cons.mp (List.mem_of_getLast? hends) with rfl | hmem
    · rcases hc with h | h <;> nomatch h
    · exact absurd hmem hafter
  next => rfl

theorem forNumbers_plain (hbefore : '%' ∉ before) (hafter : '%' ∉ after) :
    Formatter.forNumbers format = .ok (.number format .integer) := by
  unfold Formatter.forNumbers
  rw [percentPlaces?_plain hc hformat hafter, conversionOf?_plain hc hformat hbefore]
  dsimp only [Conversion.operand]
  rw [formatNumber_plain hc hformat hbefore hafter]

end Plain

/-- An integer of 64 bits is the nearest one to itself. -/
theorem nearestInt64_eq_iff {n : ℤ} : nearestInt64 n = n ↔ -2 ^ 63 ≤ n ∧ n < 2 ^ 63 := by
  unfold nearestInt64
  omega

/-! ## Labels -/

namespace Formatter

variable {before after directive : String} {x : Float}

/-- **What a plain integer format shows.** A text with a plain directive in it is accepted. The label of a finite number
is the text around a numeral. The numeral is read as the whole number nearest to what the number stands for, halves away
from zero, or as the nearest integer of 64 bits where that has more. -/
theorem label_of_plain_integer (hdirective : directive = "%d" ∨ directive = "%i") (hbefore : '%' ∉ before.toList)
    (hafter : '%' ∉ after.toList) (hx : x.isFinite = true) :
    forNumbers (before ++ directive ++ after) = .ok (number (before ++ directive ++ after) .integer) ∧
      ∃ nearest shown : ℤ, IsNearest (Double.value x) nearest ∧
        (number (before ++ directive ++ after) .integer).label (.number x) = before ++ toString shown ++ after ∧
        Decimal.Numeral.read? (toString shown) = some (.finite (decide (shown < 0)) shown.natAbs 0) ∧
        shown = nearestInt64 nearest ∧ (shown = nearest ↔ -2 ^ 63 ≤ nearest ∧ nearest < 2 ^ 63) := by
  obtain ⟨c, hc, hletter⟩ : ∃ c, (c = 'd' ∨ c = 'i') ∧ directive.toList = ['%', c] := by
    rcases hdirective with rfl | rfl
    · exact ⟨'d', .inl rfl, by decide⟩
    · exact ⟨'i', .inr rfl, by decide⟩
  have hformat : (before ++ directive ++ after).toList = before.toList ++ '%' :: c :: after.toList := by
    rw [String.toList_append, String.toList_append, hletter, List.append_assoc]
    rfl
  have hnumber : (Value.number x).toNumber? = some x := Value.toNumber?_number (Double.isNaN_of_isFinite hx)
  refine ⟨forNumbers_plain hc hformat hbefore hafter, _, nearestInt64 (Decimal.roundFloat x),
    Double.isNearest_roundFloat hx, label_eq_numberLabel hnumber ?_, Decimal.Numeral.read?_toString _, rfl,
    nearestInt64_eq_iff⟩
  show (formatNumber _ (.integer _)).toOption = _
  rw [formatNumber_plain hc hformat hbefore hafter, String.ofList_append, String.ofList_append, String.ofList_toList,
    String.ofList_toList, String.ofList_toList]
  rfl

/-- Two and a half kilograms are missing. -/
theorem label_of_plain_integer_half :
    forNumbers "about %i kg" = .ok (number "about %i kg" .integer) ∧
      (number "about %i kg" .integer).label (.number (-2.5)) = "about -3 kg" := by
  have hx : (-2.5 : Float).isFinite = true := by decide +kernel
  have hround : Decimal.roundFloat (-2.5) = -3 := by decide +kernel
  have hbefore : '%' ∉ "about ".toList := by decide
  have hafter : '%' ∉ " kg".toList := by decide
  obtain ⟨hformat, nearest, shown, hnearest, hlabel, -, -, hshown⟩ :=
    label_of_plain_integer (.inr rfl) hbefore hafter hx
  have hthree : nearest = -3 := hround ▸ hnearest.unique (Double.isNearest_roundFloat hx)
  rw [hshown.mpr (by omega), hthree] at hlabel
  exact ⟨hformat, hlabel⟩

/-- **Labels stop at the greatest integer of 64 bits.** Ten to the power of 19 is a whole number, and is shown as the
numeral of another one. -/
theorem label_stops_at_greatest :
    (1e19 : Float).isFinite = true ∧ (∀ n, IsNearest (Double.value 1e19) n → n = 10000000000000000000) ∧
      forNumbers "%d" = .ok (number "%d" .integer) ∧
      (number "%d" .integer).label (.number 1e19) = "9223372036854775807" ∧
      Decimal.Numeral.read? "9223372036854775807" = some (.finite false 9223372036854775807 0) := by
  have hx : (1e19 : Float).isFinite = true := by decide +kernel
  have hround : Decimal.roundFloat 1e19 = 10000000000000000000 := by decide +kernel
  exact ⟨hx, fun n hn => hround ▸ hn.unique (Double.isNearest_roundFloat hx), by decide +kernel, by decide +kernel,
    by decide +kernel⟩

end Formatter

end Label

end VisualEncoding
