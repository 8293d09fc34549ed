import MonkeyLang.Expression

/-!
# Statements

A statement binds a name to a value, returns a value, or is an expression by itself.  The semicolon
that may end a statement belongs to neither its tree nor its span; the text of a statement always
has one, unless the statement is an expression.
-/

namespace MonkeyLang

/-- A statement. -/
inductive Statement where
  /-- A `let` with the name that it binds and the value of the name. -/
  | binding (token name : Token) (value : Expression)
  /-- A `return` with the value to return. -/
  | returning (token : Token) (value : Expression)
  /-- An expression, and the token with which the statement begins. -/
  | expression (token : Token) (value : Expression)
deriving DecidableEq, Repr

namespace Statement

/-- The token with which a statement begins. -/
def token : Statement → Token
  | binding token _ _ => token
  | returning token _ => token
  | expression token _ => token

/-- The expression that gives a statement its value. -/
def value : Statement → Expression
  | binding _ _ value => value
  | returning _ value => value
  | expression _ value => value

/-- The bytes from a statement's first token to the last token of its value. -/
def span : Statement → Span
  | binding token _ value => token.span.hull value.span
  | returning token value => token.span.hull value.span
  | expression _ value => value.span

/-- A statement in full parentheses, ended by a semicolon unless it is an expression. -/
def text : Statement → String
  | binding token name value =>
    token.literal ++ " " ++ name.literal ++ " = " ++ value.text ++ ";"
  | returning token value => token.literal ++ " " ++ value.text ++ ";"
  | expression _ value => value.text

end Statement

end MonkeyLang
