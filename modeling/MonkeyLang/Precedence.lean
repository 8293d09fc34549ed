import MonkeyLang.Token

/-!
# Precedence

How tightly a token binds the operand before it.  Operators of the same precedence group to the left;
a token that is no binary operator binds at the lowest precedence, so no operand reaches past it.
-/

namespace MonkeyLang

/-- A level of binding strength, the loosest first. -/
inductive Precedence where
  /-- Not an operator between operands. -/
  | lowest
  /-- `==` and `!=`. -/
  | equality
  /-- `<` and `>`. -/
  | comparison
  /-- `+` and `-`. -/
  | sum
  /-- `*` and `/`. -/
  | product
  /-- An operator before its operand. -/
  | unary
  /-- Set aside for calls; no token binds at this level. -/
  | call
deriving DecidableEq, Repr

namespace Precedence

/-- The place of a level on the ladder, counted from the loosest. -/
def rank : Precedence → Nat
  | lowest => 0
  | equality => 1
  | comparison => 2
  | sum => 3
  | product => 4
  | unary => 5
  | call => 6

instance : LT Precedence := ⟨fun p q => p.rank < q.rank⟩

instance : LE Precedence := ⟨fun p q => p.rank ≤ q.rank⟩

instance (p q : Precedence) : Decidable (p < q) := inferInstanceAs (Decidable (p.rank < q.rank))

instance (p q : Precedence) : Decidable (p ≤ q) := inferInstanceAs (Decidable (p.rank ≤ q.rank))

instance : Ord Precedence := ⟨fun p q => compare p.rank q.rank⟩

theorem lt_iff {p q : Precedence} : p < q ↔ p.rank < q.rank := Iff.rfl

theorem le_iff {p q : Precedence} : p ≤ q ↔ p.rank ≤ q.rank := Iff.rfl

@[simp] theorem not_lt {p q : Precedence} : ¬ p < q ↔ q ≤ p := Nat.not_lt

end Precedence

/-- How tightly an operator binds the operand before it. -/
def Operator.precedence : Operator → Precedence
  | .equal | .notEqual => .equality
  | .less | .greater => .comparison
  | .plus | .minus => .sum
  | .star | .slash => .product
  | .assign | .bang => .lowest

/-- How tightly a token of a given kind binds the operand before it. -/
def TokenKind.precedence : TokenKind → Precedence
  | operator o => o.precedence
  | _ => .lowest

/-- An operator may stand between operands exactly if it binds the one before it. -/
theorem Operator.isBinary_iff (o : Operator) : o.isBinary ↔ .lowest < o.precedence := by
  cases o <;> decide

theorem TokenKind.isBinary_iff (kind : TokenKind) : kind.isBinary ↔ .lowest < kind.precedence := by
  cases kind with
  | operator o => exact o.isBinary_iff
  | _ => simp [isBinary, precedence, Precedence.lt_iff]

theorem Operator.precedence_lt_unary (o : Operator) : o.precedence < .unary := by
  cases o <;> decide

theorem TokenKind.precedence_lt_unary (kind : TokenKind) : kind.precedence < .unary := by
  cases kind with
  | operator o => exact o.precedence_lt_unary
  | _ => exact (by decide : Precedence.lowest < .unary)

end MonkeyLang
