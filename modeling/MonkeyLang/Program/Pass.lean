import MonkeyLang.Diagnostic.ParseError
import MonkeyLang.Precedence
import MonkeyLang.Program
import MonkeyLang.Settings
import MonkeyLang.Token.Window

/-!
# A pass over a text

A parser does not have the lexemes of its text before it.  It has a window of two tokens, and where a token
stands on its line it does not know; when it has to, it looks for a line feed in the text between the last
token and the current one.  A `Pass` is such a parser: its window and its limits, the level of operands that
it is on, and its errors so far.

It does its `Work` in parts, from an operand up to a program.  They go on for as long as the text gives them
something to do, and nothing in them counts down.  So each part that comes back to itself is given a time,
of which each turn and each level takes some; where the time is not enough, the part has no outcome.

A `Journal` keeps every state of the pass, and every question whether a line begins, with the answer.
-/

namespace MonkeyLang

/-- A parser that has two tokens of its text before it: its limits, the level of operands that it is on,
and the errors so far. -/
structure Pass extends Window where
  settings : Settings
  depth : Nat
  errors : List ParseError
deriving DecidableEq, Repr

/-- A pass with its past: the states that it has gone through, and where it has asked whether a line begins,
with the answers. -/
structure Journal extends Pass where
  past : List Pass
  asked : List (Pass × Bool)
deriving DecidableEq, Repr

namespace Pass

/-- The pass over what a scanner has left when it begins. -/
def ofScanner (scanner : Scanner) (settings : Settings) : Pass :=
  ⟨.ofScanner scanner, settings, 0, []⟩

/-- The pass over a text when it begins. -/
def start (source : String) (settings : Settings) : Pass := ofScanner (.ofString source) settings

end Pass

namespace Journal

/-- All states of a pass up to now. -/
def reached (j : Journal) : List Pass := j.past ++ [j.toPass]

/-- The journal when the pass has come to a new state. -/
def enter (j : Journal) (s : Pass) : Journal := { s with past := j.reached, asked := j.asked }

/-- The journal of a pass over what a scanner has left when it begins. -/
def ofScanner (scanner : Scanner) (settings : Settings) : Journal :=
  ⟨.ofScanner scanner settings, [], []⟩

/-- The journal of a pass over a text when it begins. -/
def start (source : String) (settings : Settings) : Journal := ofScanner (.ofString source) settings

end Journal

/-- A part of the work.  It has no outcome if its time is not enough. -/
abbrev Work := StateT Journal Option

namespace Work

/-! ## The parts -/

/-- The state of the pass. -/
def now : Work Pass := do return (← get).toPass

/-- Every change of state is entered in the journal. -/
def change (f : Pass → Pass) : Work Unit :=
  modify fun j => j.enter (f j.toPass)

/-- Moves the window on by one token. -/
def advance : Work Unit := change fun s => { s with toWindow := s.toWindow.advance }

/-- Puts an error behind the errors so far. -/
def report (problem : Problem) (token : Token) : Work Unit :=
  change fun s => { s with errors := s.errors ++ [⟨problem, token⟩] }

/-- Goes to the next level of operands. -/
def deepen : Work Unit := change fun s => { s with depth := s.depth + 1 }

/-- Comes back from a level of operands. -/
def rise : Work Unit := change fun s => { s with depth := s.depth - 1 }

/-- Asks whether a line begins with the current token. -/
def asksLine : Work Bool := do
  let j ← get
  set { j with asked := j.asked ++ [(j.toPass, j.startsLine)] }
  return j.startsLine

/-- A name, an integer literal, or a unary operator with its operand. -/
def primary (deeper : Precedence → Work (Option Expression)) : Work (Option Expression) := do
  let s ← now
  match s.current.kind with
  | .name => return some (.name s.current)
  | .integer =>
    match Numeral.read? s.current.literal.toList with
    | some n => return some (.integer s.current n)
    | none =>
      report .integerTooGreat s.current
      return none
  | kind =>
    if kind.isUnary then
      advance
      let some operand ← deeper .unary | return none
      return some (.unary s.current operand)
    else
      report .noOperand s.current
      return none

/-- Extends `left` by the operators that bind more tightly than `p`, with an operand each. -/
def extend (deeper : Precedence → Work (Option Expression)) (p : Precedence) :
    Nat → Expression → Work (Option Expression)
  | 0, _ => failure
  | n + 1, left => do
    let s ← now
    if s.ahead.kind ≠ .semicolon ∧ p < s.ahead.kind.precedence then
      if s.ahead.kind.isBinary then
        advance
        let s ← now
        advance
        let some right ← deeper s.current.kind.precedence | return none
        extend deeper p n (.binary left s.current right)
      else return some left
    else return some left

/-- An operand and the operators that extend it. -/
def above (deeper : Precedence → Work (Option Expression)) (p : Precedence) (n : Nat) :
    Work (Option Expression) := do
  let some left ← primary deeper | return none
  extend deeper p n left

/-- An expression that takes only operators that bind more tightly than `p`, on the next level. -/
def expression : Nat → Precedence → Work (Option Expression)
  | 0, _ => failure
  | n + 1, p => do
    let s ← now
    if s.settings.maxDepth ≤ s.depth then
      report (.tooDeep s.settings.maxDepth) s.current
      return none
    else
      deepen
      let e ← above (expression n) p n
      rise
      return e

/-- Moves on to the token ahead if it is of the given kind. -/
def expect (kind : TokenKind) : Work Bool := do
  let s ← now
  if s.ahead.kind = kind then
    advance
    return true
  else
    report (.expected kind) s.ahead
    return false

/-- Moves on to the semicolon that may end a statement. -/
def semicolon : Work Unit := do
  let s ← now
  if s.ahead.kind = .semicolon then advance

/-- What a statement ends with: its value, and the semicolon that may be behind it. -/
def ending (n : Nat) (build : Expression → Statement) : Work (Option Statement) := do
  let some value ← expression n .lowest | return none
  semicolon
  return some (build value)

/-- A binding, from its `let` on. -/
def binding (n : Nat) : Work (Option Statement) := do
  let s ← now
  if ← expect .name then
    let name ← now
    if ← expect (.operator .assign) then
      advance
      ending n (.binding s.current name.current)
    else return none
  else return none

/-- A returned value, from its `return` on. -/
def returning (n : Nat) : Work (Option Statement) := do
  let s ← now
  advance
  ending n (.returning s.current)

/-- An expression that is a statement by itself. -/
def plain (n : Nat) : Work (Option Statement) := do
  let s ← now
  ending n (.expression s.current)

/-- A statement, and the semicolon that may end it. -/
def statement (n : Nat) : Work (Option Statement) := do
  let s ← now
  match s.current.kind with
  | .keyword .kwLet => binding n
  | .keyword .kwReturn => returning n
  | _ => plain n

/-- Whether what is left of a statement that began at offset `begun` and failed at offset `failed` ends
before the current token.  No line is asked for up to the place of the failure. -/
def endsHere (begun failed : Nat) : Work Bool := do
  let s ← now
  if s.current.kind.opensStatement ∧ s.current.span.start ≠ begun then return true
  else if failed < s.current.span.start then asksLine
  else return false

/-- Goes past what is left of a statement that began at offset `begun` and failed at offset `failed`. -/
def recovering (begun failed : Nat) : Nat → Work Unit
  | 0 => failure
  | n + 1 => do
    let s ← now
    if s.current.kind.endsStatement then
      if s.current.kind ≠ .endOfText then advance
    else if ← endsHere begun failed then return ()
    else
      advance
      recovering begun failed n

/-- Goes past what is left of a statement that began at offset `begun` and has just failed. -/
def recover (n begun : Nat) : Work Unit := do
  let s ← now
  recovering begun s.current.span.start n

/-- The statements up to the end of the text, behind those so far. -/
def program : Nat → List Statement → Work (List Statement)
  | 0, _ => failure
  | n + 1, statements => do
    let s ← now
    if s.current.kind = .endOfText then return statements
    else
      match ← statement n with
      | some x =>
        advance
        program n (statements ++ [x])
      | none =>
        recover n s.current.span.start
        program n statements

end Work

end MonkeyLang
