import MonkeyLang.Expression.Grammar
import MonkeyLang.Program

/-!
# The grammar of statements and programs

Which rows of tokens a statement and a program are written with, told without any reference to how
they are read.  A tree does not keep the sign of a binding nor the semicolons, so a tree does not have
one row of tokens but is related to each row that it can be written with.
-/

namespace MonkeyLang

/-- A statement is written with a row of tokens, the semicolon that may end it not among them. -/
inductive Statement.WrittenWith : Statement → List Token → Prop
  | binding {token name sign : Token} {value : Expression} :
      token.kind = .keyword .kwLet → name.kind = .name → sign.kind = .operator .assign →
      WrittenWith (.binding token name value) (token :: name :: sign :: value.tokens)
  | returning {token : Token} {value : Expression} :
      token.kind = .keyword .kwReturn →
      WrittenWith (.returning token value) (token :: value.tokens)
  | expression {token : Token} {value : Expression} :
      value.tokens.head? = some token →
      WrittenWith (.expression token value) value.tokens

/-- A series of statements is written with a row of tokens, in which each statement may be ended by a
semicolon.  Without one, a binary operator cannot follow: it would still belong to the statement. -/
inductive Program.WrittenWith : List Statement → List Token → Prop
  | nil : WrittenWith [] []
  | bare {s : Statement} {ss : List Statement} {ts us : List Token} :
      s.WrittenWith ts → (∀ t ∈ us.head?, t.kind.isBinary = false) → WrittenWith ss us →
      WrittenWith (s :: ss) (ts ++ us)
  | ended {s : Statement} {ss : List Statement} {ts us : List Token} {mark : Token} :
      s.WrittenWith ts → mark.kind = .semicolon → WrittenWith ss us →
      WrittenWith (s :: ss) (ts ++ mark :: us)

/-- A statement takes at least one token, and the first is its own. -/
theorem Statement.WrittenWith.head? {s : Statement} {ts : List Token} (h : s.WrittenWith ts) :
    ts.head? = some s.token := by
  cases h with
  | binding => rfl
  | returning => rfl
  | expression h => exact h

end MonkeyLang
