import MonkeyLang.Diagnostic
import MonkeyLang.Numeral
import MonkeyLang.Token

/-!
# Parse errors

Four things can be wrong with a statement.  Each is found at one token, and a parse error is the
problem together with that token; its diagnostic puts the two into words.
-/

namespace MonkeyLang

/-- What is wrong with a statement. -/
inductive Problem where
  /-- A token of the given kind has to stand here. -/
  | expected (kind : TokenKind)
  /-- An operand has to stand here, and none begins with this token. -/
  | noOperand
  /-- The numeral denotes a number that is no integer of the language. -/
  | integerTooGreat
  /-- The operand is nested more deeply than `limit` levels. -/
  | tooDeep (limit : Nat)
deriving DecidableEq, Repr

/-- Whether a token of one kind was looked for, and not an operand. -/
def Problem.isExpectation : Problem → Bool
  | .expected _ => true
  | _ => false

/-- A problem, and the token at which it was found. -/
structure ParseError where
  problem : Problem
  token : Token
deriving DecidableEq, Repr

namespace ParseError

/-- What an error says. -/
def message (e : ParseError) : String :=
  match e.problem with
  | .expected kind =>
    "expected next token to be " ++ kind.display ++ ", got " ++ e.token.kind.display ++ " instead"
  | .noOperand => "no prefix parse function for " ++ e.token.kind.display ++ " found"
  | .integerTooGreat => "could not parse " ++ e.token.literal ++ " as integer"
  | .tooDeep limit => "expression nesting exceeds the maximum depth of " ++ toString limit

/-- Only the limit on nesting is a limit; every other problem is an error of form. -/
def kind (e : ParseError) : ErrorKind :=
  match e.problem with
  | .tooDeep _ => .limitExceeded
  | _ => .malformed

/-- What an error advises.  A token that can be no operand has advice only if it is outside the
language or reserved in it. -/
def hint (e : ParseError) : Option String :=
  match e.problem with
  | .expected _ => none
  | .noOperand =>
    match e.token.kind with
    | .illegal => some ("`" ++ e.token.literal ++ "` is not a valid character here")
    | .keyword _ =>
      some ("`" ++ e.token.literal ++ "` is reserved but not supported in expressions yet")
    | _ => none
  | .integerTooGreat =>
    some ("integer literals must lie between " ++ toString Numeral.least ++ " and "
      ++ toString Numeral.greatest)
  | .tooDeep _ => some "split the expression with `let` bindings"

/-- The error in words, at the span of its token. -/
def diagnostic (e : ParseError) : Diagnostic := ⟨e.message, e.token.span, e.kind, e.hint⟩

end ParseError

end MonkeyLang
