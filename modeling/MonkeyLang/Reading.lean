import MonkeyLang.Diagnostic.ParseError
import MonkeyLang.Token.Stream

/-!
# Readings

A part of the language is read off the head of a stream of lexemes.  A reading is what was read
together with the lexemes after it, or else a failure: the problem together with the lexemes from the
offending one on.  The end of the stream is the end of the text, so a failure there has no lexeme
left.
-/

namespace MonkeyLang

/-- Why a part of the language could not be read, and the lexemes from the offending one on. -/
structure Failure where
  problem : Problem
  rest : List Lexeme
deriving DecidableEq, Repr

/-- The parse error of a failure in a text of `stop` bytes. -/
def Failure.error (f : Failure) (stop : Nat) : ParseError :=
  ⟨f.problem, match f.rest with
    | [] => .endOfText stop
    | t :: _ => t.token⟩

/-- What was read and the lexemes after it, or why nothing could be read. -/
abbrev Reading (α : Type) := Except Failure (α × List Lexeme)

theorem Reading.bind_eq_ok_iff {α β ε : Type} {x : Except ε α} {f : α → Except ε β} {b : β} :
    x >>= f = .ok b ↔ ∃ a, x = .ok a ∧ f a = .ok b := by
  cases x <;> simp [bind, Except.bind]

theorem Reading.bind_eq_error_iff {α β ε : Type} {x : Except ε α} {f : α → Except ε β} {e : ε} :
    x >>= f = .error e ↔ x = .error e ∨ ∃ a, x = .ok a ∧ f a = .error e := by
  cases x <;> simp [bind, Except.bind]

/-- Reads one token, which has to be of the given kind. -/
def expect (kind : TokenKind) : List Lexeme → Reading Token
  | [] => .error ⟨.expected kind, []⟩
  | t :: rest => if t.kind = kind then .ok (t.token, rest) else .error ⟨.expected kind, t :: rest⟩

theorem expect_eq_ok_iff {kind : TokenKind} {ts rest : List Lexeme} {token : Token} :
    expect kind ts = .ok (token, rest) ↔
      ∃ t : Lexeme, ts = t :: rest ∧ t.token = token ∧ t.kind = kind := by
  cases ts with
  | nil => simp [expect]
  | cons t ts =>
    by_cases h : t.kind = kind
    · rw [expect, if_pos h]
      constructor
      · intro ht
        cases ht
        exact ⟨t, rfl, rfl, h⟩
      · rintro ⟨u, hu, rfl, -⟩
        cases hu
        rfl
    · rw [expect, if_neg h]
      refine iff_of_false (by simp) ?_
      rintro ⟨u, hu, -, hk⟩
      cases hu
      exact h hk

theorem expect_eq_error_iff {kind : TokenKind} {ts : List Lexeme} {f : Failure} :
    expect kind ts = .error f ↔ f = ⟨.expected kind, ts⟩ ∧ ∀ t ∈ ts.head?, t.kind ≠ kind := by
  cases ts with
  | nil => simp [expect, eq_comm]
  | cons t ts =>
    by_cases h : t.kind = kind
    · rw [expect, if_pos h]
      refine iff_of_false (by simp) ?_
      rintro ⟨-, ht⟩
      exact ht t rfl h
    · rw [expect, if_neg h, Except.error.injEq]
      constructor
      · rintro rfl
        refine ⟨rfl, ?_⟩
        intro u hu
        cases hu
        exact h
      · rintro ⟨rfl, -⟩
        rfl

end MonkeyLang
