import TableDriven.Calculator.Literal

/-!
# Decimal literals

The digits of a natural number are read as this number if 64 bits with a sign can hold it. If
they cannot, the digit by which the number gets too large is refused, and the rest is not read.
-/

namespace TableDriven.Calculator

/-- Further digits make a number no smaller. -/
theorem le_ofDigitChars (digits : List Char) (value : Nat) :
    value ≤ Nat.ofDigitChars 10 digits value := by
  induction digits generalizing value with
  | nil => exact Nat.le_refl value
  | cons digit digits inductionHypothesis =>
    rw [Nat.ofDigitChars_cons]
    have further := inductionHypothesis (10 * value + (digit.toNat - '0'.toNat))
    omega

/-- A natural number is in range if it is not above the greatest value. -/
theorem inRange?_natCast (value : Nat) :
    inRange? value = if value ≤ greatestInt then some (value : Int) else none := by
  have above : leastInt ≤ (value : Int) := Int.le_trans (by decide) (Int.natCast_nonneg value)
  simp only [inRange?, above, true_and]

/-- Digits behind a value in range are read unless the number gets too large. Induct on the
digits: once it is too large, further digits do not help. -/
theorem readDigits_of_digits (digits : List Char)
    (decimal : ∀ digit ∈ digits, digit.isDigit = true) {value : Nat}
    (small : value ≤ greatestInt) :
    readDigits false value digits =
      if Nat.ofDigitChars 10 digits value ≤ greatestInt then
        .ok (Nat.ofDigitChars 10 digits value : Int)
      else .error .tooLarge := by
  induction digits generalizing value with
  | nil => rw [readDigits, Nat.ofDigitChars_nil, if_pos small]
  | cons digit digits inductionHypothesis =>
    have own : digit? digit = some (digit.toNat - 48) := if_pos (decimal digit List.mem_cons_self)
    have next : (value : Int) * 10 + (digit.toNat - 48 : Nat) =
        ((10 * value + (digit.toNat - '0'.toNat) : Nat) : Int) := by
      rw [show '0'.toNat = 48 from rfl]
      omega
    rw [readDigits, own, Nat.ofDigitChars_cons]
    simp only [Bool.false_eq_true, if_false, next, inRange?_natCast]
    generalize 10 * value + (digit.toNat - '0'.toNat) = onward
    by_cases fits : (onward : Int) ≤ greatestInt
    · rw [if_pos fits]
      exact inductionHypothesis (fun other member => decimal other (List.mem_cons_of_mem _ member))
        fits
    · rw [if_neg fits, if_neg]
      have further := le_ofDigitChars digits onward
      omega

/-- The digits of a number are no sign. -/
theorem readCharacters_of_digits {digits : List Char} (some : digits ≠ [])
    (decimal : ∀ digit ∈ digits, digit.isDigit = true) :
    readCharacters digits = readDigits false 0 digits := by
  unfold readCharacters
  split
  · contradiction
  · exact absurd (decimal '+' List.mem_cons_self) (by decide)
  · exact absurd (decimal '-' List.mem_cons_self) (by decide)
  · exact absurd (decimal '+' List.mem_cons_self) (by decide)
  · exact absurd (decimal '-' List.mem_cons_self) (by decide)
  · rfl

/-- A natural number that is written in decimal is read as itself, or as too large. -/
theorem readLiteral_toString (value : Nat) :
    readLiteral (toString value) =
      if value ≤ greatestInt then .ok (value : Int) else .error .tooLarge := by
  have decimal : ∀ digit ∈ Nat.toDigits 10 value, digit.isDigit = true := fun digit member =>
    Nat.isDigit_of_mem_toDigits (by decide) (by decide) member
  have none : ((0 : Nat) : Int) ≤ greatestInt := by decide
  have read := readDigits_of_digits (Nat.toDigits 10 value) decimal none
  rw [Nat.ofDigitChars_ten_toDigits] at read
  rw [readLiteral, Nat.toString_eq_ofList_toDigits, String.toList_ofList,
    readCharacters_of_digits Nat.toDigits_ne_nil decimal]
  exact read

end TableDriven.Calculator
