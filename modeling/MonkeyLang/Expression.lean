import MonkeyLang.Token

/-!
# Expressions

An expression is a name, an integer literal, an operator before one operand or an operator between
two.  Every node keeps the token that it was made of, so that a tree knows both its spelling and its
place in the source.

The text of an expression puts each operator and its operands into parentheses; it shows how operands
are grouped without any reference to precedence.
-/

namespace MonkeyLang

/-- An expression. -/
inductive Expression where
  | name (token : Token)
  /-- An integer literal: the numeral as it is written, and the integer that it denotes. -/
  | integer (token : Token) (value : Int)
  | unary (operator : Token) (operand : Expression)
  | binary (left : Expression) (operator : Token) (right : Expression)
deriving DecidableEq, Repr

namespace Expression

/-- The token that an expression is made of at its top: the operator, if it has one. -/
def token : Expression → Token
  | name token => token
  | integer token _ => token
  | unary operator _ => operator
  | binary _ operator _ => operator

/-- The bytes from an expression's first token to its last. -/
def span : Expression → Span
  | name token => token.span
  | integer token _ => token.span
  | unary operator operand => operator.span.hull operand.span
  | binary left _ right => left.span.hull right.span

/-- An expression in full parentheses. -/
def text : Expression → String
  | name token => token.literal
  | integer token _ => token.literal
  | unary operator operand => "(" ++ operator.literal ++ operand.text ++ ")"
  | binary left operator right =>
    "(" ++ left.text ++ " " ++ operator.literal ++ " " ++ right.text ++ ")"

end Expression

end MonkeyLang
