import VisualEncoding.Label.Formatter
import VisualEncoding.Proofs.Outcome
import VisualEncoding.Proofs.Value.Numbers

/-!
# Patterns that write numbers

Whether a pattern can write a number hangs on the kind of the number only: it can if exactly one of its directives uses
a number (`usesOf`) and that one takes numbers of the kind, with a width and a precision that are not taken from numbers
themselves (`exists_writeParts_iff`). A pattern that was tried out on zero therefore writes every number.

> `Formatter.label_of_forNumbers`: a formatter that is made from a number pattern has a label for every number, and
> that is the label of each value that stands for the number.
-/

namespace VisualEncoding.Label

variable {conversion : Conversion} {d : Directive} {parts : List PatternPart} {format : String} {x : Float}

/-! ## Directives -/

/-- A letter takes numbers of a kind. -/
def Letter.Takes : Letter → Conversion → Prop
  | .integer, conversion => conversion = .integer
  | .places _, conversion | .exponent _, conversion => conversion = .double
  | .percent, _ | .other, _ => False

/-- A directive writes numbers of a kind: its letter takes them, and its width and precision are not taken from them. -/
structure Directive.Writes (d : Directive) (conversion : Conversion) : Prop where
  takes : d.letter.Takes conversion
  width : ∃ n, d.width = .written n
  precision : ∃ n, d.precision = .written n

/-- A directive has a text for a number if and only if its letter takes numbers of that kind. -/
theorem Directive.exists_text_iff (width places : Nat) (x : Float) :
    (∃ cs, d.text width places (conversion.operand x) = .ok cs) ↔ d.letter.Takes conversion := by
  cases conversion with
  | integer =>
    show (∃ cs, (if d.letter = .integer then Except.ok _ else _) = Except.ok cs) ↔ _
    cases d.letter with
    | integer => exact iff_of_true ⟨_, rfl⟩ rfl
    | _ => exact iff_of_false (fun ⟨_, h⟩ => nomatch h) nofun
  | double =>
    unfold text Conversion.operand doubleText?
    cases d.letter with
    | places upper | exponent upper => exact iff_of_true ⟨_, rfl⟩ rfl
    | _ => exact iff_of_false (fun ⟨_, h⟩ => nomatch h) nofun

/-- A width or a precision is known if and only if it is written. -/
theorem Extent.exists_resolve_iff {e : Extent} {operand : Operand} :
    (∃ n, e.resolve operand = .ok n) ↔ ∃ n, e = .written n := by
  cases e with
  | written n => exact iff_of_true ⟨n, rfl⟩ ⟨n, rfl⟩
  | taken =>
    refine iff_of_false ?_ nofun
    rintro ⟨n, h⟩
    cases operand <;> nomatch h

/-! ## Patterns -/

/-- The directives of a pattern that use a number. -/
def usesOf : List PatternPart → List Directive
  | [] => []
  | .text _ :: rest => usesOf rest
  | .directive d :: rest => if d.letter = .percent then usesOf rest else d :: usesOf rest

/-- Without a number a pattern can be written if no directive uses one. -/
theorem exists_writeParts_none_iff : (∃ cs, writeParts none parts = .ok cs) ↔ usesOf parts = [] := by
  induction parts with
  | nil => exact iff_of_true ⟨[], rfl⟩ rfl
  | cons part rest ih =>
    cases part with
    | text c =>
      rw [writeParts, Outcome.exists_bind_pure_iff, usesOf]
      exact ih
    | directive d =>
      rw [writeParts, usesOf]
      by_cases hpercent : d.letter = .percent
      · rw [if_pos hpercent, if_pos hpercent, Outcome.exists_bind_pure_iff]
        exact ih
      · rw [if_neg hpercent, if_neg hpercent]
        exact iff_of_false (fun ⟨_, h⟩ => nomatch h) (List.cons_ne_nil _ _)

/-- A number can be written by a pattern in which one directive uses a number, and writes numbers of its kind. -/
theorem exists_writeParts_iff (x : Float) :
    (∃ cs, writeParts (some (conversion.operand x)) parts = .ok cs) ↔
      ∃ d, usesOf parts = [d] ∧ d.Writes conversion := by
  induction parts with
  | nil =>
    refine iff_of_false (fun ⟨_, h⟩ => nomatch h) ?_
    rintro ⟨d, h, -⟩
    nomatch h
  | cons part rest ih =>
    cases part with
    | text c =>
      rw [writeParts, Outcome.exists_bind_pure_iff, usesOf]
      exact ih
    | directive d =>
      rw [writeParts, usesOf]
      by_cases hpercent : d.letter = .percent
      · rw [if_pos hpercent, if_pos hpercent, Outcome.exists_bind_pure_iff]
        exact ih
      · -- the directive takes the number, and what is behind it has to be written without one
        rw [if_neg hpercent, if_neg hpercent]
        simp only [Outcome.bind_eq_ok_iff]
        constructor
        · rintro ⟨_, width, hwidth, places, hplaces, cs, hcs, after, hafter, -⟩
          have hrest := exists_writeParts_none_iff.mp ⟨after, hafter⟩
          rw [hrest]
          exact ⟨d, rfl, (Directive.exists_text_iff width places x).mp ⟨cs, hcs⟩,
            Extent.exists_resolve_iff.mp ⟨width, hwidth⟩, Extent.exists_resolve_iff.mp ⟨places, hplaces⟩⟩
        · rintro ⟨e, huses, hwrites⟩
          obtain ⟨rfl, hrest⟩ := List.cons.inj huses
          obtain ⟨width, hwidth⟩ := Extent.exists_resolve_iff.mpr hwrites.width
          obtain ⟨places, hplaces⟩ := Extent.exists_resolve_iff.mpr hwrites.precision
          obtain ⟨cs, hcs⟩ := (Directive.exists_text_iff width places x).mpr hwrites.takes
          obtain ⟨after, hafter⟩ := exists_writeParts_none_iff.mpr hrest
          exact ⟨cs ++ after, width, hwidth, places, hplaces, cs, hcs, after, hafter, rfl⟩

/-- A format can write a number if it is a pattern in which one directive uses a number, and writes numbers of its
kind. -/
theorem exists_formatNumber_iff (x : Float) :
    (∃ text, formatNumber format (conversion.operand x) = .ok text) ↔
      ∃ parts d, readParts? format.toList = some parts ∧ usesOf parts = [d] ∧ d.Writes conversion := by
  unfold formatNumber
  cases readParts? format.toList with
  | none =>
    refine iff_of_false (fun ⟨_, h⟩ => nomatch h) ?_
    rintro ⟨parts, d, h, -⟩
    nomatch h
  | some parts =>
    have hparts : (∃ cs, writeParts (some (conversion.operand x)) parts = .ok cs) ↔
        ∃ d, usesOf parts = [d] ∧ d.Writes conversion := exists_writeParts_iff x
    constructor
    · rintro ⟨text, htext⟩
      obtain ⟨cs, hcs, -⟩ := Outcome.map_eq_ok_iff.mp htext
      obtain ⟨d, huses, hwrites⟩ := hparts.mp ⟨cs, hcs⟩
      exact ⟨parts, d, rfl, huses, hwrites⟩
    · rintro ⟨_, d, hfound, huses, hwrites⟩
      cases hfound
      obtain ⟨cs, hcs⟩ := hparts.mpr ⟨d, huses, hwrites⟩
      exact ⟨String.ofList cs, Outcome.map_eq_ok_iff.mpr ⟨cs, hcs, rfl⟩⟩

/-! ## Formatters -/

namespace Formatter

/-- A pattern is accepted with the conversion of its first directive, if it can write zero. -/
theorem forNumbers_eq_number {pattern : String} (h : forNumbers format = .ok (.number pattern conversion)) :
    pattern = format ∧ conversionOf? format = some conversion ∧
      ∃ text, formatNumber format (conversion.operand 0.0) = .ok text := by
  unfold forNumbers at h
  split at h
  next => nomatch h
  next =>
    split at h
    next => nomatch h
    next found hfound =>
      split at h
      next text htext =>
        cases h
        exact ⟨rfl, hfound, text, htext⟩
      next => nomatch h

/-- The label of a value is that of the number that it stands for. -/
theorem label_eq_numberLabel {pattern text : String} {v : Value Float} (hx : v.toNumber? = some x)
    (htext : (number pattern conversion).numberLabel? x = some text) :
    (number pattern conversion).label v = text := by
  have hnull : v.isNull = false := by
    cases v with
    | null => nomatch hx
    | _ => rfl
  unfold label
  rw [hnull, hx, if_neg Bool.false_ne_true]
  show ((number pattern conversion).numberLabel? x).getD v.text = text
  rw [htext]
  rfl

/-- **A pattern that is accepted writes every number.** One of its directives uses a number, and takes numbers of the
kind that the formatter gives it. So there is a label for every number, which is the label of each value that stands for
the number. -/
theorem label_of_forNumbers {pattern : String} (h : forNumbers format = .ok (.number pattern conversion)) :
    (∃ parts d, readParts? pattern.toList = some parts ∧ usesOf parts = [d] ∧ d.Writes conversion) ∧
      ∀ x : Float, ∃ text, formatNumber pattern (conversion.operand x) = .ok text ∧
        (number pattern conversion).numberLabel? x = some text ∧
        ∀ v : Value Float, v.toNumber? = some x → (number pattern conversion).label v = text := by
  obtain ⟨rfl, -, hzero⟩ := forNumbers_eq_number h
  -- zero was written, and nothing but the kind of the number decides
  have hwrites := (exists_formatNumber_iff 0.0).mp hzero
  refine ⟨hwrites, fun x => ?_⟩
  obtain ⟨text, htext⟩ := (exists_formatNumber_iff x).mpr hwrites
  have hlabel : (number pattern conversion).numberLabel? x = some text := by
    show (formatNumber pattern (conversion.operand x)).toOption = some text
    rw [htext]
    rfl
  exact ⟨text, htext, hlabel, fun v hx => label_eq_numberLabel hx hlabel⟩

/-- A pattern with flags, a width, a precision and a percent sign. -/
theorem label_of_forNumbers_signedPlaces :
    forNumbers "%+08.2f %%" = .ok (.number "%+08.2f %%" .double) ∧
      (Value.number (-1234.5) : Value Float).toNumber? = some (-1234.5) ∧
      ∃ text, (number "%+08.2f %%" .double).numberLabel? (-1234.5) = some text ∧
        (number "%+08.2f %%" .double).label (.number (-1234.5)) = text := by
  have hformat : forNumbers "%+08.2f %%" = .ok (.number "%+08.2f %%" .double) := by decide +kernel
  have hnumber : (Value.number (-1234.5) : Value Float).toNumber? = some (-1234.5) := Value.toNumber?_number (by decide)
  obtain ⟨-, hlabels⟩ := label_of_forNumbers hformat
  obtain ⟨text, -, hlabel, hvalues⟩ := hlabels (-1234.5)
  exact ⟨hformat, hnumber, text, hlabel, hvalues _ hnumber⟩

end Formatter

end VisualEncoding.Label
