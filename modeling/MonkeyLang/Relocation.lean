import MonkeyLang.Program.Parse

/-!
# Relocation

A text may stand inside a longer one, and then all its tokens and trees are found at other spans.
`mapSpan f` puts `f` of a span in the place of every span of a value and keeps all else: with
`Span.shift n` it moves the value `n` bytes further on, and with a constant function it forgets where
the value stands.

What a tree says does not hang on where it stands (`text_mapSpan`), and a tree that is moved as a whole
has its own span moved (`span_shift`).
-/

namespace MonkeyLang

/-- The token with its span replaced by `f` of it. -/
def Token.mapSpan (f : Span → Span) (t : Token) : Token := { t with span := f t.span }

/-- The lexeme with its span replaced by `f` of it. -/
def Lexeme.mapSpan (f : Span → Span) (t : Lexeme) : Lexeme := { t with token := t.token.mapSpan f }

/-- The error with the span of its token replaced by `f` of it. -/
def ParseError.mapSpan (f : Span → Span) (e : ParseError) : ParseError :=
  { e with token := e.token.mapSpan f }

/-- The expression with the spans of its tokens replaced by `f` of them. -/
def Expression.mapSpan (f : Span → Span) : Expression → Expression
  | name token => name (token.mapSpan f)
  | integer token value => integer (token.mapSpan f) value
  | unary operator operand => unary (operator.mapSpan f) (operand.mapSpan f)
  | binary left operator right => binary (left.mapSpan f) (operator.mapSpan f) (right.mapSpan f)

/-- The statement with the spans of its tokens replaced by `f` of them. -/
def Statement.mapSpan (f : Span → Span) : Statement → Statement
  | binding token name value => binding (token.mapSpan f) (name.mapSpan f) (value.mapSpan f)
  | returning token value => returning (token.mapSpan f) (value.mapSpan f)
  | expression token value => expression (token.mapSpan f) (value.mapSpan f)

/-- The program with the spans of its tokens replaced by `f` of them. -/
def Program.mapSpan (f : Span → Span) (p : Program) : Program :=
  ⟨p.statements.map (Statement.mapSpan f)⟩

/-- What a text parses to, with the spans of its tokens replaced by `f` of them. -/
def Parse.mapSpan (f : Span → Span) (p : Parse) : Parse :=
  ⟨p.program.mapSpan f, p.errors.map (ParseError.mapSpan f)⟩

/-! ## Moving and forgetting -/

/-- The expression `n` bytes further on. -/
def Expression.shift (n : Nat) : Expression → Expression := mapSpan (Span.shift n)

/-- The statement `n` bytes further on. -/
def Statement.shift (n : Nat) : Statement → Statement := mapSpan (Span.shift n)

/-- The error `n` bytes further on. -/
def ParseError.shift (n : Nat) : ParseError → ParseError := mapSpan (Span.shift n)

/-- The expression, with nothing kept of where it stands. -/
def Expression.unplaced : Expression → Expression := mapSpan fun _ => .point 0

/-- The statement, with nothing kept of where it stands. -/
def Statement.unplaced : Statement → Statement := mapSpan fun _ => .point 0

/-! ## Equations -/

@[simp] theorem Token.mapSpan_kind (f : Span → Span) (t : Token) : (t.mapSpan f).kind = t.kind := rfl

@[simp] theorem Token.mapSpan_literal (f : Span → Span) (t : Token) :
    (t.mapSpan f).literal = t.literal := rfl

@[simp] theorem Token.mapSpan_span (f : Span → Span) (t : Token) :
    (t.mapSpan f).span = f t.span := rfl

namespace Expression

@[simp] theorem mapSpan_id (e : Expression) : e.mapSpan id = e := by
  induction e <;> simp_all [mapSpan, Token.mapSpan]

theorem mapSpan_mapSpan (f g : Span → Span) (e : Expression) :
    (e.mapSpan f).mapSpan g = e.mapSpan (g ∘ f) := by
  induction e <;> simp_all [mapSpan, Token.mapSpan]

@[simp] theorem text_mapSpan (f : Span → Span) (e : Expression) : (e.mapSpan f).text = e.text := by
  induction e <;> simp_all [mapSpan, text]

theorem span_shift (n : Nat) (e : Expression) : (e.shift n).span = e.span.shift n := by
  induction e with
  | name | integer => rfl
  | unary operator operand ih =>
    simp only [shift, mapSpan, span, Span.shift_hull, Token.mapSpan_span] at ih ⊢
    rw [ih]
  | binary left operator right ihl ihr =>
    simp only [shift, mapSpan, span, Span.shift_hull] at ihl ihr ⊢
    rw [ihl, ihr]

end Expression

namespace Statement

@[simp] theorem mapSpan_id (s : Statement) : s.mapSpan id = s := by
  cases s <;> simp [mapSpan, Token.mapSpan]

theorem mapSpan_mapSpan (f g : Span → Span) (s : Statement) :
    (s.mapSpan f).mapSpan g = s.mapSpan (g ∘ f) := by
  cases s <;> simp [mapSpan, Token.mapSpan, Expression.mapSpan_mapSpan]

@[simp] theorem text_mapSpan (f : Span → Span) (s : Statement) : (s.mapSpan f).text = s.text := by
  cases s <;> simp [mapSpan, text]

theorem span_shift (n : Nat) (s : Statement) : (s.shift n).span = s.span.shift n := by
  have h (e : Expression) : (e.mapSpan (Span.shift n)).span = e.span.shift n := e.span_shift n
  cases s <;> simp [shift, mapSpan, span, Span.shift_hull, h]

end Statement

/-- Where an error stands has no part in what it says. -/
theorem ParseError.message_mapSpan (f : Span → Span) (e : ParseError) :
    (e.mapSpan f).message = e.message := rfl

theorem ParseError.hint_mapSpan (f : Span → Span) (e : ParseError) :
    (e.mapSpan f).hint = e.hint := rfl

theorem ParseError.kind_mapSpan (f : Span → Span) (e : ParseError) :
    (e.mapSpan f).kind = e.kind := rfl

end MonkeyLang
