/-!
# Numerals

An integer literal is a run of decimal digits.  It denotes a natural number, whatever the length of
the run and however many zeros lead it, but only numbers up to `Numeral.greatest` are integers of the
language.
-/

namespace MonkeyLang.Numeral

/-- The least integer of the language. -/
def least : Int := -9223372036854775808

/-- The greatest integer of the language. -/
def greatest : Int := 9223372036854775807

/-- The number that a run of decimal digits denotes. -/
def value (digits : List Char) : Nat := Nat.ofDigitChars 10 digits 0

/-- The integer that a run of decimal digits denotes, if it is one of the language. -/
def read? (digits : List Char) : Option Int :=
  if value digits ≤ greatest then some (value digits) else none

theorem read?_eq_some_iff {digits : List Char} {n : Int} :
    read? digits = some n ↔ n = value digits ∧ n ≤ greatest := by
  by_cases h : value digits ≤ greatest
  · rw [read?, if_pos h, Option.some.injEq]
    constructor
    · rintro rfl
      exact ⟨rfl, h⟩
    · rintro ⟨rfl, -⟩
      rfl
  · rw [read?, if_neg h]
    constructor
    · intro hn
      exact absurd hn (by simp)
    · rintro ⟨rfl, hn⟩
      exact absurd hn h

theorem read?_eq_none_iff {digits : List Char} :
    read? digits = none ↔ greatest < value digits := by
  by_cases h : value digits ≤ greatest
  · rw [read?, if_pos h]
    exact iff_of_false (by simp) (Int.not_lt.2 h)
  · rw [read?, if_neg h]
    exact iff_of_true rfl (Int.not_le.1 h)

/-- The decimal numeral of a number denotes that number. -/
theorem value_toDigits (n : Nat) : value (Nat.toDigits 10 n) = n :=
  Nat.ofDigitChars_toDigits (by decide) (by decide)

end MonkeyLang.Numeral
