import MonkeyLang.Statement

/-!
# Programs

A program is a sequence of statements, in the order in which they stand in the source.
-/

namespace MonkeyLang

/-- A sequence of statements. -/
structure Program where
  statements : List Statement
deriving DecidableEq, Repr

namespace Program

/-- Whether a program has no statement. -/
def isEmpty (p : Program) : Bool := p.statements.isEmpty

/-- The text of the token with which a program begins; nothing for a program without statements. -/
def tokenLiteral (p : Program) : String :=
  match p.statements.head? with
  | some first => first.token.literal
  | none => ""

/-- The hull of the first statement and the last; the start of the text for a program without
statements. -/
def span (p : Program) : Span :=
  match p.statements.head?, p.statements.getLast? with
  | some first, some last => first.span.hull last.span
  | _, _ => .point 0

/-- The texts of the statements, one directly after the other. -/
def text (p : Program) : String := String.join (p.statements.map Statement.text)

end Program

end MonkeyLang
