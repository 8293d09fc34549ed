import MonkeyLang.Reading

/-!
# Recovery

A statement that cannot be read is given up, and reading goes on at the next statement.  What is left
of the failed statement ends at its semicolon, at the next `let` or `return`, or with its line,
whichever comes first; so one malformed statement does not spoil the statements after it.

A token that was refused as an operand belongs to the failed statement, even where it is the first on
its line.  A token that stands where another kind was expected does not have to: it may already begin
the next statement.

A parser that goes on from where it stands, token by token, knows its place by offsets: where the statement
began, and where it failed (`skipFailed`).
-/

namespace MonkeyLang

/-- The lexemes behind what is left of a failed statement. -/
def skipStatement : List Lexeme → List Lexeme
  | [] => []
  | t :: rest =>
    if t.kind = .semicolon then rest
    else if t.kind.opensStatement || t.startsLine then t :: rest
    else skipStatement rest

/-- The lexemes behind what is left of a failed statement in which the first lexeme was refused as an
operand. -/
def skipRefused : List Lexeme → List Lexeme
  | [] => []
  | t :: rest =>
    if t.kind = .semicolon then rest
    else if t.kind.opensStatement then t :: rest
    else skipStatement rest

/-- The lexemes at which reading goes on after a failure. -/
def Failure.resume (f : Failure) : List Lexeme :=
  if f.problem.isExpectation then skipStatement f.rest else skipRefused f.rest

/-- The lexemes behind what is left of a statement that began at offset `begun` and failed at offset
`failed`.  Its own first lexeme does not end it, nor does a line break before the place of the failure. -/
def skipFailed (begun failed : Nat) : List Lexeme → List Lexeme
  | [] => []
  | t :: rest =>
    if t.kind = .semicolon then rest
    else if (t.kind.opensStatement ∧ t.token.span.start ≠ begun) ∨
        (failed < t.token.span.start ∧ t.startsLine) then t :: rest
    else skipFailed begun failed rest

/-- The lexemes from the one on at which a parser stands when it fails in an attempt at `ts`.  It looks
one lexeme ahead for a token that it expects, and stands at one that it refuses. -/
def Failure.stand (x : Failure) (ts : List Lexeme) : List Lexeme :=
  if x.problem.isExpectation then ts.drop (ts.length - (x.rest.length + 1)) else x.rest

theorem skipStatement_suffix (ts : List Lexeme) : skipStatement ts <:+ ts := by
  fun_induction skipStatement ts with
  | case1 => exact List.suffix_rfl
  | case2 t rest => exact List.suffix_cons t rest
  | case3 => exact List.suffix_rfl
  | case4 t rest _ _ ih => exact ih.trans (List.suffix_cons t rest)

theorem skipRefused_suffix (ts : List Lexeme) : skipRefused ts <:+ ts := by
  unfold skipRefused
  split
  · exact List.suffix_rfl
  · rename_i t rest
    split
    · exact List.suffix_cons t rest
    · split
      · exact List.suffix_rfl
      · exact (skipStatement_suffix rest).trans (List.suffix_cons t rest)

/-- A refused lexeme is skipped, unless a statement begins at it. -/
theorem skipRefused_cons_suffix {t : Lexeme} (h : t.kind.opensStatement = false)
    (rest : List Lexeme) : skipRefused (t :: rest) <:+ rest := by
  rw [skipRefused]
  split
  · exact List.suffix_rfl
  · rw [if_neg (by simp [h])]
    exact skipStatement_suffix rest

theorem Failure.resume_suffix (f : Failure) : f.resume <:+ f.rest := by
  unfold resume
  split
  · exact skipStatement_suffix f.rest
  · exact skipRefused_suffix f.rest

end MonkeyLang
