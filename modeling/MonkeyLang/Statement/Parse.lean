import MonkeyLang.Expression.Parse
import MonkeyLang.Recovery
import MonkeyLang.Statement

/-!
# Reading statements

The first token of a statement tells its form: `let` begins a binding, `return` begins a returned
value, and anything else has to begin an expression.  A semicolon may end a statement.

The main statement is `attempt_rest_suffix`: an attempt at a statement gets past its first lexeme,
whether it succeeds or fails.
-/

namespace MonkeyLang.Statement

/-- Reads what follows the `let` of a binding: a name, the sign `=` and a value. -/
def readBinding (limit : Nat) (token : Token) (ts : List Lexeme) :
    Except Failure (Statement × List Lexeme) := do
  let (name, ts) ← expect .name ts
  let (_, ts) ← expect (.operator .assign) ts
  let (value, ts) ← Expression.parse limit ts
  return (binding token name value, ts)

/-- Reads what follows a `return`: a value. -/
def readReturning (limit : Nat) (token : Token) (ts : List Lexeme) :
    Except Failure (Statement × List Lexeme) := do
  let (value, ts) ← Expression.parse limit ts
  return (returning token value, ts)

/-- Reads an expression as a statement that begins with `token`. -/
def readExpression (limit : Nat) (token : Token) (ts : List Lexeme) :
    Except Failure (Statement × List Lexeme) := do
  let (value, ts) ← Expression.parse limit ts
  return (expression token value, ts)

/-- Reads the statement that begins with the lexeme `t`. -/
def parse (limit : Nat) (t : Lexeme) (rest : List Lexeme) : Reading Statement :=
  match t.kind with
  | .keyword .kwLet => readBinding limit t.token rest
  | .keyword .kwReturn => readReturning limit t.token rest
  | _ => readExpression limit t.token (t :: rest)

/-- Drops the semicolon that may end a statement. -/
def dropSemicolon : List Lexeme → List Lexeme
  | [] => []
  | t :: rest => if t.kind = .semicolon then rest else t :: rest

/-- What an attempt at a statement came to: a statement, or the error that spoiled it. -/
abbrev Outcome := Except ParseError Statement

/-- The outcome of an attempt at a statement, and the lexemes at which the next attempt begins. -/
structure Attempt where
  outcome : Outcome
  rest : List Lexeme
deriving Repr

/-- Attempts to read the statement that begins with the lexeme `t`, in a text of `stop` bytes. -/
def attempt (limit stop : Nat) (t : Lexeme) (rest : List Lexeme) : Attempt :=
  match parse limit t rest with
  | .ok (s, rest) => ⟨.ok s, dropSemicolon rest⟩
  | .error f => ⟨.error (f.error stop), f.resume⟩

/-! ## Progress -/

theorem dropSemicolon_suffix (ts : List Lexeme) : dropSemicolon ts <:+ ts := by
  unfold dropSemicolon
  split
  · exact List.suffix_rfl
  · split
    · exact List.suffix_cons _ _
    · exact List.suffix_rfl

theorem readExpression_eq_ok_iff {limit : Nat} {token : Token} {ts rest : List Lexeme}
    {s : Statement} : readExpression limit token ts = .ok (s, rest) ↔
      ∃ e, Expression.parse limit ts = .ok (e, rest) ∧ s = expression token e := by
  rw [readExpression, Reading.bind_eq_ok_iff]
  constructor
  · rintro ⟨⟨e, us⟩, he, h⟩
    cases h
    exact ⟨e, he, rfl⟩
  · rintro ⟨e, he, rfl⟩
    exact ⟨(e, rest), he, rfl⟩

theorem readExpression_eq_error_iff {limit : Nat} {token : Token} {ts : List Lexeme}
    {f : Failure} : readExpression limit token ts = .error f ↔
      Expression.parse limit ts = .error f := by
  simp [readExpression, Reading.bind_eq_error_iff, pure, Except.pure]

theorem readReturning_eq_ok_iff {limit : Nat} {token : Token} {ts rest : List Lexeme}
    {s : Statement} : readReturning limit token ts = .ok (s, rest) ↔
      ∃ e, Expression.parse limit ts = .ok (e, rest) ∧ s = returning token e := by
  rw [readReturning, Reading.bind_eq_ok_iff]
  constructor
  · rintro ⟨⟨e, us⟩, he, h⟩
    cases h
    exact ⟨e, he, rfl⟩
  · rintro ⟨e, he, rfl⟩
    exact ⟨(e, rest), he, rfl⟩

theorem readReturning_eq_error_iff {limit : Nat} {token : Token} {ts : List Lexeme}
    {f : Failure} : readReturning limit token ts = .error f ↔
      Expression.parse limit ts = .error f := by
  simp [readReturning, Reading.bind_eq_error_iff, pure, Except.pure]

theorem readBinding_eq_ok_iff {limit : Nat} {token : Token} {ts rest : List Lexeme}
    {s : Statement} : readBinding limit token ts = .ok (s, rest) ↔
      ∃ n a us e, ts = n :: a :: us ∧ n.kind = .name ∧ a.kind = .operator .assign ∧
        Expression.parse limit us = .ok (e, rest) ∧ s = binding token n.token e := by
  simp only [readBinding, Reading.bind_eq_ok_iff, Prod.exists, expect_eq_ok_iff]
  constructor
  · rintro ⟨_, _, ⟨n, rfl, rfl, hn⟩, _, us, ⟨a, rfl, rfl, ha⟩, e, vs, he, h⟩
    cases h
    exact ⟨n, a, us, e, rfl, hn, ha, he, rfl⟩
  · rintro ⟨n, a, us, e, rfl, hn, ha, he, rfl⟩
    exact ⟨n.token, a :: us, ⟨n, rfl, rfl, hn⟩, a.token, us, ⟨a, rfl, rfl, ha⟩, e, rest, he, rfl⟩

theorem readBinding_eq_error_iff {limit : Nat} {token : Token} {ts : List Lexeme} {f : Failure} :
    readBinding limit token ts = .error f ↔
      expect .name ts = .error f ∨ ∃ n us, ts = n :: us ∧ n.kind = .name ∧
        (expect (.operator .assign) us = .error f ∨
          ∃ a vs, us = a :: vs ∧ a.kind = .operator .assign ∧
            Expression.parse limit vs = .error f) := by
  simp only [readBinding, Reading.bind_eq_error_iff, Prod.exists, expect_eq_ok_iff]
  constructor
  · rintro (h | ⟨_, us, ⟨n, rfl, rfl, hn⟩, h | ⟨_, vs, ⟨a, rfl, rfl, ha⟩, h | ⟨_, _, _, h⟩⟩⟩)
    · exact Or.inl h
    · exact Or.inr ⟨n, us, rfl, hn, Or.inl h⟩
    · exact Or.inr ⟨n, a :: vs, rfl, hn, Or.inr ⟨a, vs, rfl, ha, h⟩⟩
    · exact absurd h (by simp [pure, Except.pure])
  · rintro (h | ⟨n, us, rfl, hn, h | ⟨a, vs, rfl, ha, h⟩⟩)
    · exact Or.inl h
    · exact Or.inr ⟨n.token, us, ⟨n, rfl, rfl, hn⟩, Or.inl h⟩
    · exact Or.inr ⟨n.token, a :: vs, ⟨n, rfl, rfl, hn⟩,
        Or.inr ⟨a.token, vs, ⟨a, rfl, rfl, ha⟩, Or.inl h⟩⟩

theorem rest_suffix_of_parse_eq_ok {limit : Nat} {t : Lexeme} {ts rest : List Lexeme}
    {s : Statement} (h : parse limit t ts = .ok (s, rest)) : rest <:+ ts := by
  unfold parse at h
  split at h
  · obtain ⟨n, a, us, e, rfl, -, -, he, -⟩ := readBinding_eq_ok_iff.1 h
    obtain ⟨u, vs, rfl, hs⟩ := Expression.exists_of_parse_eq_ok he
    exact hs.trans ⟨[n, a, u], rfl⟩
  · obtain ⟨e, he, -⟩ := readReturning_eq_ok_iff.1 h
    obtain ⟨u, vs, rfl, hs⟩ := Expression.exists_of_parse_eq_ok he
    exact hs.trans (List.suffix_cons u vs)
  · obtain ⟨e, he, -⟩ := readExpression_eq_ok_iff.1 h
    obtain ⟨u, vs, hu, hs⟩ := Expression.exists_of_parse_eq_ok he
    obtain ⟨rfl, rfl⟩ := List.cons.inj hu
    exact hs

theorem resume_suffix_of_parse_eq_error {limit : Nat} {t : Lexeme} {ts : List Lexeme}
    {f : Failure} (h : parse limit t ts = .error f) : f.resume <:+ ts := by
  unfold parse at h
  split at h
  · refine f.resume_suffix.trans ?_
    rcases readBinding_eq_error_iff.1 h with h | ⟨n, us, rfl, -, h | ⟨a, vs, rfl, -, h⟩⟩
    · obtain ⟨rfl, -⟩ := expect_eq_error_iff.1 h
      exact List.suffix_rfl
    · obtain ⟨rfl, -⟩ := expect_eq_error_iff.1 h
      exact List.suffix_cons n us
    · exact (Expression.refused_of_parse_eq_error h).1.trans ⟨[n, a], rfl⟩
  · have he := readReturning_eq_error_iff.1 h
    exact f.resume_suffix.trans (Expression.refused_of_parse_eq_error he).1
  · rename_i hlet hreturn
    obtain ⟨hs, hp⟩ := Expression.refused_of_parse_eq_error (readExpression_eq_error_iff.1 h)
    rcases List.suffix_cons_iff.1 hs with hs | hs
    · have ht : t.kind.opensStatement = false := by
        simp only [TokenKind.opensStatement, Bool.or_eq_false_iff, beq_eq_false_iff_ne]
        exact ⟨hlet, hreturn⟩
      rw [Failure.resume, hp, hs]
      exact skipRefused_cons_suffix ht ts
    · exact f.resume_suffix.trans hs

/-- An attempt gets past the lexeme with which it begins. -/
theorem attempt_rest_suffix (limit stop : Nat) (t : Lexeme) (ts : List Lexeme) :
    (attempt limit stop t ts).rest <:+ ts := by
  unfold attempt
  split
  · rename_i h
    exact (dropSemicolon_suffix _).trans (rest_suffix_of_parse_eq_ok h)
  · rename_i h
    exact resume_suffix_of_parse_eq_error h

end MonkeyLang.Statement
