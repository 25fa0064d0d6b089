/-!
# Rounding a quotient

A quotient is rounded to a neighbouring whole number. The exact conversions between binary and decimal send a
half to the even neighbour; where a number is shown as an integer, a half goes up.
-/

namespace VisualEncoding.Decimal

/-- The whole number nearest to `num / den`; a half goes to the even neighbour. -/
def roundHalfEven (num den : Nat) : Nat :=
  let below := num / den
  let rest := 2 * (num % den)
  if rest < den then below
  else if den < rest then below + 1
  else if below % 2 == 0 then below
  else below + 1

/-- A quotient is rounded to its floor if the rest is at most a half, and to the successor if it is at
least a half. -/
theorem roundHalfEven_eq_or (num den : Nat) :
    (roundHalfEven num den = num / den ∧ 2 * (num % den) ≤ den) ∨
      (roundHalfEven num den = num / den + 1 ∧ den ≤ 2 * (num % den)) := by
  simp only [roundHalfEven]
  split
  · exact Or.inl ⟨rfl, by omega⟩
  · split
    · exact Or.inr ⟨rfl, by omega⟩
    · split
      · exact Or.inl ⟨rfl, by omega⟩
      · exact Or.inr ⟨rfl, by omega⟩

/-- The whole number nearest to `num / den`; a half goes to the greater neighbour. -/
def roundHalfUp (num den : Nat) : Nat := (2 * num + den) / (2 * den)

/-- A ratio of powers: `base ^ e` as a pair of numerator and denominator. -/
def powerRatio (base : Nat) (e : Int) : Nat × Nat :=
  (Nat.pow base e.toNat, Nat.pow base (-e).toNat)

/-- The number of decimal digits of a natural number. -/
def digitCount (n : Nat) : Nat := (Nat.toDigits 10 n).length

end VisualEncoding.Decimal
