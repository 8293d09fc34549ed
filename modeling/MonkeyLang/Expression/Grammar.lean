import MonkeyLang.Expression
import MonkeyLang.Numeral
import MonkeyLang.Precedence

/-!
# The grammar of expressions

Which trees are expressions of the language, told without any reference to how they are read.

A tree stands for a row of tokens, its `tokens`, read from left to right.  It is `WellFormed` if each
node is made of a token that can make such a node.  It is `Grouped` if its shape is the one that
precedence gives to its tokens: a left operand binds at least as tightly as the operator behind it, and
a right operand more tightly than the operator before it.  Its `depth` is the number of levels that it
takes to read.
-/

namespace MonkeyLang.Expression

/-- The tokens of an expression, in the order of the text. -/
def tokens : Expression → List Token
  | name token => [token]
  | integer token _ => [token]
  | unary operator operand => operator :: operand.tokens
  | binary left operator right => left.tokens ++ operator :: right.tokens

/-- Each node is made of a token of the right kind, and each integer is the one that its numeral
denotes. -/
def WellFormed : Expression → Prop
  | name token => token.kind = .name
  | integer token value => token.kind = .integer ∧ Numeral.read? token.literal.toList = some value
  | unary operator operand => operator.kind.isUnary ∧ operand.WellFormed
  | binary left operator right => operator.kind.isBinary ∧ left.WellFormed ∧ right.WellFormed

/-- How tightly an expression holds together: as tightly as its operator, if that is a binary one. -/
def precedence : Expression → Precedence
  | binary _ operator _ => operator.kind.precedence
  | _ => .unary

/-- The shape of the tree is the one that precedence gives to its tokens. -/
def Grouped : Expression → Prop
  | name _ => True
  | integer _ _ => True
  | unary _ operand => .unary ≤ operand.precedence ∧ operand.Grouped
  | binary left operator right =>
    operator.kind.precedence ≤ left.precedence ∧ operator.kind.precedence < right.precedence ∧
      left.Grouped ∧ right.Grouped

/-- How many levels of operands an expression has.  The left operand of an operator is on the level of
the operator itself. -/
def depth : Expression → Nat
  | name _ => 1
  | integer _ _ => 1
  | unary _ operand => 1 + operand.depth
  | binary left _ right => max left.depth (1 + right.depth)

instance decidableWellFormed : (e : Expression) → Decidable e.WellFormed
  | name _ => inferInstanceAs (Decidable (_ = _))
  | integer _ _ => inferInstanceAs (Decidable (_ ∧ _))
  | unary _ operand =>
    have := decidableWellFormed operand
    inferInstanceAs (Decidable (_ ∧ _))
  | binary left _ right =>
    have := decidableWellFormed left
    have := decidableWellFormed right
    inferInstanceAs (Decidable (_ ∧ _ ∧ _))

instance decidableGrouped : (e : Expression) → Decidable e.Grouped
  | name _ => .isTrue trivial
  | integer _ _ => .isTrue trivial
  | unary _ operand =>
    have := decidableGrouped operand
    inferInstanceAs (Decidable (_ ∧ _))
  | binary left _ right =>
    have := decidableGrouped left
    have := decidableGrouped right
    inferInstanceAs (Decidable (_ ∧ _ ∧ _ ∧ _))

theorem tokens_ne_nil (e : Expression) : e.tokens ≠ [] := by
  cases e <;> simp [tokens]

theorem depth_pos (e : Expression) : 0 < e.depth := by
  induction e <;> simp only [depth] <;> omega

/-- Only a unary operator or a leaf can stand behind a unary operator. -/
theorem unary_le_precedence_iff {e : Expression} :
    .unary ≤ e.precedence ↔ ∀ l op r, e ≠ binary l op r := by
  cases e with
  | binary l op r =>
    have h := op.kind.precedence_lt_unary
    simp only [Precedence.lt_iff, Precedence.le_iff, precedence] at h ⊢
    refine iff_of_false (Nat.not_le.2 h) fun hne => hne l op r rfl
  | _ => simp [precedence, Precedence.le_iff]

end MonkeyLang.Expression
