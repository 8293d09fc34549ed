/-!
# Character classes

The classes of characters that the language tells apart.  Blanks, letters and digits are ASCII
characters only; the classes do not overlap.
-/

namespace MonkeyLang.Character

/-- A blank separates tokens and means nothing else: space, tab, line feed or carriage return. -/
def isBlank (c : Char) : Bool := c == ' ' || c == '\t' || c == '\n' || c == '\r'

/-- A letter may stand in a word: `a` to `z`, `A` to `Z` and the underscore. -/
def isLetter (c : Char) : Bool := c.isAlpha || c == '_'

/-- A digit may stand in a numeral: `0` to `9`. -/
def isDigit (c : Char) : Bool := c.isDigit

theorem isBlank_iff {c : Char} : isBlank c ↔ c = ' ' ∨ c = '\t' ∨ c = '\n' ∨ c = '\r' := by
  simp [isBlank, or_assoc]

theorem isLetter_of_isBlank {c : Char} (h : isBlank c) : isLetter c = false := by
  rcases isBlank_iff.1 h with rfl | rfl | rfl | rfl <;> decide

theorem isDigit_of_isBlank {c : Char} (h : isBlank c) : isDigit c = false := by
  rcases isBlank_iff.1 h with rfl | rfl | rfl | rfl <;> decide

theorem isDigit_of_isLetter {c : Char} (h : isLetter c) : isDigit c = false := by
  rcases Bool.or_eq_true_iff.1 h with h | h
  · have hcode : 65 ≤ c.toNat := by
      rcases Bool.or_eq_true_iff.1 h with h | h
      · exact UInt32.le_iff_toNat_le.1 (of_decide_eq_true h).1
      · have ha : 97 ≤ c.toNat :=
          UInt32.le_iff_toNat_le.1 (of_decide_eq_true (Bool.and_eq_true_iff.1 h).1)
        omega
    refine Bool.and_eq_false_iff.2 (Or.inr (decide_eq_false ?_))
    intro h9
    have h9 : c.toNat ≤ 57 := UInt32.le_iff_toNat_le.1 h9
    omega
  · rw [eq_of_beq h]
    decide

end MonkeyLang.Character
