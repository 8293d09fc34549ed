import Mathlib.Logic.Function.Iterate
import MonkeyLang.Program.Parse

/-!
# Parsing step by step

A reader of expressions is handed a budget of levels, and returns what it read or one failure.  A
parser at work can be told in another way: it stands at a place of the stream, has a list of the
errors so far, and counts the levels that it is in, up before an operand and down after it.  A
`Session` is such a parser, and its parts change it as they go.

The loops of a parser are told by one turn of each: the loop over the operators of an expression
(`Session.extension`), the loop behind a failure (`Session.recovering`) and the loop over the statements
of a text (`Session.turn`).
-/

namespace MonkeyLang

/-- A parser at work, and how many levels of operands it is in. -/
structure Session extends Parser where
  depth : Nat
deriving DecidableEq, Repr

namespace Session

/-- A part of the work: what it returns, if it succeeds, and the session after it. -/
structure Part (α : Type) where
  run : Session → Option α × Session

instance : Monad Part where
  pure a := ⟨fun s => (some a, s)⟩
  bind part next := ⟨fun s =>
    match part.run s with
    | (some a, s) => (next a).run s
    | (none, s) => (none, s)⟩

variable {α β : Type}

/-- What follows a part that returns something. -/
theorem run_bind_some {part : Part α} (f : α → Part β) {s s' : Session} {a : α}
    (h : part.run s = (some a, s')) : (part >>= f).run s = (f a).run s' := by
  show (match part.run s with | (some a, s) => (f a).run s | (none, s) => (none, s)) = _
  rw [h]

/-- Nothing follows a part that returns nothing. -/
theorem run_bind_none {part : Part α} (f : α → Part β) {s s' : Session}
    (h : part.run s = (none, s')) : (part >>= f).run s = (none, s') := by
  show (match part.run s with | (some a, s) => (f a).run s | (none, s) => (none, s)) = _
  rw [h]

/-! ## The parts -/

/-- The lexeme at which the session stands, if the text has one left. -/
def front : Part (Option Lexeme) := ⟨fun s => (some s.rest.head?, s)⟩

/-- How many lexemes the text has left. -/
def remaining : Part Nat := ⟨fun s => (some s.rest.length, s)⟩

/-- Goes on to the next lexeme. -/
def skip : Part Unit := ⟨fun s => (some (), { s with rest := s.rest.tail })⟩

/-- Gives up, with an error at the lexeme at which the session stands. -/
def refuse (problem : Problem) : Part α :=
  ⟨fun s => (none, { s with errors := s.errors ++ [Failure.error ⟨problem, s.rest⟩ s.stop] })⟩

/-- A part on one level more, if the limit admits it. -/
def nested (part : Part α) : Part α :=
  ⟨fun s =>
    if s.settings.maxDepth ≤ s.depth then (refuse (.tooDeep s.settings.maxDepth)).run s
    else
      match part.run { s with depth := s.depth + 1 } with
      | (a, s) => (a, { s with depth := s.depth - 1 })⟩

/-- A name, an integer literal, or a unary operator with its operand. -/
def primary (deeper : Precedence → Part Expression) : Part Expression := do
  match ← front with
  | none => refuse .noOperand
  | some t =>
    match t.kind with
    | .name =>
      skip
      return .name t.token
    | .integer =>
      match Numeral.read? t.token.literal.toList with
      | some n =>
        skip
        return .integer t.token n
      | none => refuse .integerTooGreat
    | kind =>
      if kind.isUnary then
        skip
        let operand ← deeper .unary
        return .unary t.token operand
      else refuse .noOperand

/-- Extends `left` by at most `n` operators that bind more tightly than `p`, with an operand each. -/
def extend (deeper : Precedence → Part Expression) (p : Precedence) :
    Nat → Expression → Part Expression
  | 0, left => return left
  | n + 1, left => do
    match ← front with
    | none => return left
    | some t =>
      if p < t.kind.precedence ∧ t.kind.isBinary then
        skip
        let right ← deeper t.kind.precedence
        extend deeper p n (.binary left t.token right)
      else return left

/-- An operand and the operators that extend it.  There are no more of these than lexemes. -/
def above (deeper : Precedence → Part Expression) (p : Precedence) : Part Expression := do
  let left ← primary deeper
  let n ← remaining
  extend deeper p n left

/-- An operand on the next level, with at most `levels` levels to go through. -/
def operand : Nat → Precedence → Part Expression
  | 0, _ => nested (refuse .noOperand)
  | levels + 1, p => nested (above (operand levels) p)

/-- An expression that takes only operators that bind more tightly than `p`. -/
def expression (p : Precedence) : Part Expression :=
  ⟨fun s => (operand (s.settings.maxDepth - s.depth) p).run s⟩

/-- A token of the given kind. -/
def expect (kind : TokenKind) : Part Token := do
  match ← front with
  | none => refuse (.expected kind)
  | some t =>
    if t.kind = kind then
      skip
      return t.token
    else refuse (.expected kind)

/-- What follows the `let` of a binding. -/
def binding (token : Token) : Part Statement := do
  let name ← expect .name
  let _ ← expect (.operator .assign)
  let value ← expression .lowest
  return .binding token name value

/-- What follows a `return`. -/
def returning (token : Token) : Part Statement := do
  let value ← expression .lowest
  return .returning token value

/-- An expression that is a statement by itself. -/
def plain (token : Token) : Part Statement := do
  let value ← expression .lowest
  return .expression token value

/-- A statement that begins with the lexeme `t`, without the semicolon that may end it. -/
def body (t : Lexeme) : Part Statement :=
  match t.kind with
  | .keyword .kwLet => do
    skip
    binding t.token
  | .keyword .kwReturn => do
    skip
    returning t.token
  | _ => plain t.token

/-- Goes past the semicolon that may end a statement. -/
def semicolon : Part Unit :=
  ⟨fun s => (some (), { s with rest := Statement.dropSemicolon s.rest })⟩

/-- A statement, and the semicolon that may end it. -/
def statement : Part Statement := do
  match ← front with
  | none => refuse .noOperand
  | some t =>
    let x ← body t
    semicolon
    return x

/-! ## The loop with all of its branches -/

section Stray

variable (stray : Expression → Part Expression)

/-- One turn of the loop over the operators behind `left`.  It goes on with one operator more, or it
ends the loop.  A token that binds more tightly than `p`, but for which there is no rule between
operands, is left to `stray`. -/
def extension (deeper : Precedence → Part Expression) (p : Precedence) (left : Expression) :
    Part (Expression ⊕ Expression) := do
  match ← front with
  | none => return .inr left
  | some t =>
    if t.kind ≠ .semicolon ∧ p < t.kind.precedence then
      if t.kind.isBinary then
        skip
        let right ← deeper t.kind.precedence
        return .inl (.binary left t.token right)
      else
        let e ← stray left
        return .inr e
    else return .inr left

/-- At most `n` turns of the loop over operators. -/
def extendWith (deeper : Precedence → Part Expression) (p : Precedence) :
    Nat → Expression → Part Expression
  | 0, left => return left
  | n + 1, left => do
    match ← extension stray deeper p left with
    | .inl left => extendWith deeper p n left
    | .inr e => return e

/-- An operand and the operators that extend it, by the loop with all of its branches. -/
def aboveWith (deeper : Precedence → Part Expression) (p : Precedence) : Part Expression := do
  let left ← primary deeper
  let n ← remaining
  extendWith stray deeper p n left

/-- An operand on the next level, with at most `levels` levels to go through. -/
def operandWith : Nat → Precedence → Part Expression
  | 0, _ => nested (refuse .noOperand)
  | levels + 1, p => nested (aboveWith stray (operandWith levels) p)

/-- An expression that takes only operators that bind more tightly than `p`, by the loop with all of
its branches. -/
def expressionWith (p : Precedence) : Part Expression :=
  ⟨fun s => (operandWith stray (s.settings.maxDepth - s.depth) p).run s⟩

end Stray

/-! ## The session as a whole -/

/-- Behind a failure, the place at which its problem lets the next statement begin. -/
def recover (s : Session) : Session :=
  match s.errors.getLast? with
  | none => s
  | some e => { s with rest := Failure.resume ⟨e.problem, s.rest⟩ }

/-- One turn: a statement, or recovery if there is none.  At the end of the text there are no more
turns. -/
def next (s : Session) : Session :=
  match s.rest with
  | [] => s
  | _ :: _ =>
    match statement.run s with
    | (some _, s) => s
    | (none, s) => s.recover

/-- The session at the start of a text. -/
def start (source : String) (settings : Settings) : Session :=
  ⟨.ofCursor (.ofString source) settings, 0⟩

/-- The session over a text when it has taken `n` turns. -/
def atTurn (source : String) (settings : Settings) (n : Nat) : Session :=
  next^[n] (start source settings)

/-! ## The other loops -/

/-- One turn of the loop behind a failure.  It goes past what ends the failed statement or stops before
what begins the next, and else it goes on with the next lexeme. -/
def recovering (begun failed : Nat) : Unit → Part (Unit ⊕ Unit) := fun _ => do
  match ← front with
  | none => return .inr ()
  | some t =>
    if t.kind = .semicolon then
      skip
      return .inr ()
    else if (t.kind.opensStatement ∧ t.token.span.start ≠ begun) ∨
        (failed < t.token.span.start ∧ t.startsLine) then return .inr ()
    else
      skip
      return .inl ()

/-- The offset at which the session stands. -/
def place (s : Session) : Nat :=
  match s.rest with
  | [] => s.stop
  | t :: _ => t.token.span.start

/-- The session after a try at a statement that has failed, as it stands when recovery begins. -/
def stuck (s : Session) : Session :=
  match (statement.run s).2.errors.getLast? with
  | none => (statement.run s).2
  | some e =>
    { (statement.run s).2 with
      rest := Failure.stand ⟨e.problem, (statement.run s).2.rest⟩ s.rest }

/-- One turn of the loop over a text, with the statements so far.  It ends with the text. -/
def turn (statements : List Statement) : Part (List Statement ⊕ List Statement) := ⟨fun s =>
  match s.rest with
  | [] => (some (.inr statements), s)
  | _ :: _ =>
    match statement.run s with
    | (some x, s) => (some (.inl (statements ++ [x])), s)
    | (none, s) => (some (.inl statements), s.recover)⟩

end Session

end MonkeyLang
