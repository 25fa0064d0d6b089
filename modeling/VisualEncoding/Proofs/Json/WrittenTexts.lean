import VisualEncoding.Json.Parser
import VisualEncoding.Json.Printer
import Mathlib.Tactic

/-!
# Written words and texts are read back

A character of a text is written as itself or behind a backslash, and it is read from either (`scanText_escapedChar`).
A text that consists of one token is read as what the token stands for.

> `parse_quotedText`: a text is read from its quoted form.
-/

namespace VisualEncoding.Json

/-! ## Characters -/

theorem hexDigit?_digitChar : ∀ n < 16, hexDigit? (Nat.digitChar n) = some n := by decide

/-- The four digits of a control character. -/
theorem scanHex_control {n : Nat} (h : n < 0x20) (rest : List Char) :
    scanHex ('0' :: '0' :: Nat.digitChar (n / 16) :: Nat.digitChar (n % 16) :: rest) = .ok (n, rest) := by
  have hdigits : (['0', '0', Nat.digitChar (n / 16), Nat.digitChar (n % 16)]).mapM hexDigit?
      = some [0, 0, n / 16, n % 16] := by
    simp only [List.mapM_cons, List.mapM_nil, hexDigit?_digitChar (n / 16) (by omega),
      hexDigit?_digitChar (n % 16) (by omega)]
    rfl
  unfold scanHex
  simp only [List.take_succ_cons, List.take_zero, List.drop_succ_cons, List.drop_zero, hdigits]
  rw [show ((0 * 16 + 0) * 16 + n / 16) * 16 + n % 16 = n by omega]

theorem scanEscape_control {c : Char} (h : c.toNat < 0x20) (rest : List Char) :
    scanEscape ('u' :: '0' :: '0' :: Nat.digitChar (c.toNat / 16) :: Nat.digitChar (c.toNat % 16) :: rest)
      = .ok (some c, rest) := by
  rw [scanEscape, scanHex_control h]
  show (if 0xD800 ≤ c.toNat && c.toNat ≤ 0xDBFF then scanLowSurrogate c.toNat rest
    else if 0xDC00 ≤ c.toNat && c.toNat ≤ 0xDFFF then .ok (none, rest) else .ok (some (Char.ofNat c.toNat), rest)) = _
  have hhigh : ¬0xD800 ≤ c.toNat := by omega
  have hlow : ¬0xDC00 ≤ c.toNat := by omega
  simp only [hhigh, hlow, decide_false, Bool.false_and, Bool.false_eq_true, if_false, Char.ofNat_toNat]

/-- The letter after a backslash names the character that it was written for. -/
theorem scanEscape_of_lookup {c e : Char}
    (h : [('"', '"'), ('\\', '\\'), ('\x08', 'b'), ('\x0c', 'f'), ('\n', 'n'), ('\r', 'r'), ('\t', 't')].lookup c
      = some e) (rest : List Char) : scanEscape (e :: rest) = .ok (some c, rest) := by
  obtain ⟨before, after, hsplit, -⟩ := List.lookup_eq_some_iff.mp h
  have hmem : (c, e) ∈ before ++ (c, e) :: after := List.mem_append_right _ List.mem_cons_self
  rw [← hsplit] at hmem
  simp only [List.mem_cons, Prod.mk.injEq, List.not_mem_nil, or_false] at hmem
  rcases hmem with ⟨rfl, rfl⟩ | ⟨rfl, rfl⟩ | ⟨rfl, rfl⟩ | ⟨rfl, rfl⟩ | ⟨rfl, rfl⟩ | ⟨rfl, rfl⟩ | ⟨rfl, rfl⟩ <;> rfl

theorem scanText_escape {c : Char} {letters rest : List Char} (done : List Char)
    (h : scanEscape (letters ++ rest) = .ok (some c, rest)) (hletters : letters ≠ []) :
    scanText (some done) ('\\' :: (letters ++ rest)) = scanText (some (c :: done)) rest := by
  have hsome := List.length_pos_of_ne_nil hletters
  have hshorter : rest.length < (letters ++ rest).length := by
    rw [List.length_append]
    omega
  rw [scanText]
  simp only [h, hshorter, dif_pos]

/-- A character is read from what it is written as. -/
theorem scanText_escapedChar (done : List Char) (c : Char) (rest : List Char) :
    scanText (some done) (escapedChar c ++ rest) = scanText (some (c :: done)) rest := by
  unfold escapedChar
  split
  next e hlookup => exact scanText_escape done (scanEscape_of_lookup hlookup rest) (List.cons_ne_nil e [])
  next hnone =>
    split
    next hcontrol => exact scanText_escape done (scanEscape_control hcontrol rest) (List.cons_ne_nil _ _)
    next hplain =>
      have hquote : c ≠ '"' := by
        rintro rfl
        nomatch hnone
      have hbackslash : c ≠ '\\' := by
        rintro rfl
        nomatch hnone
      rw [List.singleton_append, scanText, if_neg hplain]
      · rfl
      · exact hquote
      · exact hbackslash

theorem scanText_escaped (cs done rest : List Char) :
    scanText (some done) (cs.flatMap escapedChar ++ '"' :: rest)
      = (.text (String.ofList (done.reverse ++ cs)), rest) := by
  induction cs generalizing done with
  | nil =>
    rw [List.append_nil, List.flatMap_nil, List.nil_append, scanText]
  | cons c cs ih =>
    rw [List.flatMap_cons, List.append_assoc, scanText_escapedChar, ih, List.reverse_cons, List.append_assoc]
    rfl

/-! ## Single tokens -/

variable {text : String} {c : Char} {rest : List Char} {j : Json} {s : String}

/-- A text of one token that stands for a tree is read as the tree. -/
theorem parse_of_atom (htext : text.toList = c :: rest) (hspace : isSpace c = false)
    (htoken : scanToken c rest = (.atom j, [])) : parse text = .ok j := by
  have htokens : tokens text.toList = [.atom j] := by
    rw [htext, tokens, if_neg (Bool.eq_false_iff.mp hspace), htoken]
    simp [tokens]
  unfold parse parseIgnoring
  rw [htokens]
  rfl

theorem parse_of_text (htext : text.toList = c :: rest) (hspace : isSpace c = false)
    (htoken : scanToken c rest = (.text s, [])) : parse text = .ok (.string s) := by
  have htokens : tokens text.toList = [.text s] := by
    rw [htext, tokens, if_neg (Bool.eq_false_iff.mp hspace), htoken]
    simp [tokens]
  unfold parse parseIgnoring
  rw [htokens]
  rfl

theorem parse_quotedText (s : String) : parse (quotedText s) = .ok (.string s) := by
  have htoken : scanToken '"' (s.toList.flatMap escapedChar ++ ['"']) = (.text s, []) := by
    show scanText (some []) _ = _
    rw [scanText_escaped, List.reverse_nil, List.nil_append, String.ofList_toList]
  exact parse_of_text String.toList_ofList rfl htoken

theorem parse_null : parse (compact .null) = .ok .null := by cbv

theorem parse_bool (b : Bool) : parse (compact (.bool b)) = .ok (.bool b) := by
  cases b <;> cbv

end VisualEncoding.Json
