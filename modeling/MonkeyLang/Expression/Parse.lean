import MonkeyLang.Expression
import MonkeyLang.Precedence
import MonkeyLang.Reading

/-!
# Reading expressions

An expression is an operand followed by any number of binary operators with an operand each.  How far
an operand reaches is settled by precedence: the right operand of an operator takes only operators
that bind more tightly than that operator does, so operators of one level group to the left, and the
operand of a unary operator takes no operator at all.

Each operand inside an expression, be it to the right of a binary operator or behind a unary one, is
one level deeper than the expression.  A limit bounds the number of levels; a chain of operators of
one level stays on its level, however long it is.

The recursion runs on the levels that are left.  The loop over one level's operators ends because an
operand takes at least one lexeme; an `OperandReader` carries that fact along.  The main statements are
`exists_of_parse_eq_ok`, that an expression takes one lexeme or more off the head of the stream, and
`refused_of_parse_eq_error`, that a failure refuses an operand at some place of the stream.
-/

namespace MonkeyLang.Expression

/-- A reading that takes at least one lexeme off the head of `ts`, or that refuses an operand
somewhere in `ts`. -/
def Orderly (ts : List Lexeme) : Reading Expression → Prop
  | .ok (_, rest) => ∃ t us, ts = t :: us ∧ rest <:+ us
  | .error f => f.rest <:+ ts ∧ f.problem.isExpectation = false

/-- A way to read an operand that takes only operators that bind more tightly than a given
precedence. -/
structure OperandReader where
  read : Precedence → List Lexeme → Reading Expression
  orderly : ∀ p ts, Orderly ts (read p ts)

theorem OperandReader.exists_of_ok (r : OperandReader) {p : Precedence} {ts rest : List Lexeme}
    {e : Expression} (h : r.read p ts = .ok (e, rest)) : ∃ t us, ts = t :: us ∧ rest <:+ us := by
  have ho := r.orderly p ts
  rwa [h] at ho

theorem OperandReader.refused_of_error (r : OperandReader) {p : Precedence} {ts : List Lexeme}
    {f : Failure} (h : r.read p ts = .error f) :
    f.rest <:+ ts ∧ f.problem.isExpectation = false := by
  have ho := r.orderly p ts
  rwa [h] at ho

theorem OperandReader.rest_length_lt (r : OperandReader) {p : Precedence} {ts rest : List Lexeme}
    {e : Expression} (h : r.read p ts = .ok (e, rest)) : rest.length < ts.length := by
  obtain ⟨t, us, rfl, hs⟩ := r.exists_of_ok h
  exact Nat.lt_succ_of_le hs.length_le

/-- Reads a name, an integer literal, or a unary operator with its operand. -/
def readPrimary (deeper : OperandReader) : List Lexeme → Reading Expression
  | [] => .error ⟨.noOperand, []⟩
  | t :: rest =>
    match t.kind with
    | .name => .ok (name t.token, rest)
    | .integer =>
      match Numeral.read? t.token.literal.toList with
      | some n => .ok (integer t.token n, rest)
      | none => .error ⟨.integerTooGreat, t :: rest⟩
    | kind =>
      if kind.isUnary then
        match deeper.read .unary rest with
        | .ok (operand, rest) => .ok (unary t.token operand, rest)
        | .error f => .error f
      else .error ⟨.noOperand, t :: rest⟩

/-- Extends `left` by the operators that follow it and bind more tightly than `p`, with the right
operand of each. -/
def extend (deeper : OperandReader) (p : Precedence) (left : Expression) :
    List Lexeme → Reading Expression
  | [] => .ok (left, [])
  | t :: rest =>
    if p < t.kind.precedence ∧ t.kind.isBinary then
      match _h : deeper.read t.kind.precedence rest with
      | .ok (right, rest) => extend deeper p (binary left t.token right) rest
      | .error f => .error f
    else .ok (left, t :: rest)
termination_by ts => ts.length
decreasing_by
  have := deeper.rest_length_lt (by assumption)
  simp only [List.length_cons]
  omega

theorem readPrimary_orderly (deeper : OperandReader) (ts : List Lexeme) :
    Orderly ts (readPrimary deeper ts) := by
  cases ts with
  | nil => exact ⟨List.suffix_rfl, rfl⟩
  | cons t us =>
    simp only [readPrimary]
    split
    · exact ⟨t, us, rfl, List.suffix_rfl⟩
    · split
      · exact ⟨t, us, rfl, List.suffix_rfl⟩
      · exact ⟨List.suffix_rfl, rfl⟩
    · split
      · split
        · rename_i hr
          obtain ⟨u, vs, rfl, hs⟩ := deeper.exists_of_ok hr
          exact ⟨t, u :: vs, rfl, hs.trans (List.suffix_cons u vs)⟩
        · rename_i hr
          obtain ⟨hs, hp⟩ := deeper.refused_of_error hr
          exact ⟨hs.trans (List.suffix_cons t us), hp⟩
      · exact ⟨List.suffix_rfl, rfl⟩

theorem extend_orderly (deeper : OperandReader) (p : Precedence) (left : Expression) (t : Lexeme)
    {us ts : List Lexeme} (hts : ts <:+ us) : Orderly (t :: us) (extend deeper p left ts) := by
  fun_induction extend deeper p left ts with
  | case1 => exact ⟨t, us, rfl, hts⟩
  | case2 left u vs _ right rest hr ih =>
    obtain ⟨v, ws, rfl, hs⟩ := deeper.exists_of_ok hr
    exact ih ((hs.trans (List.suffix_cons v ws)).trans ((List.suffix_cons u _).trans hts))
  | case3 left u vs _ f hr =>
    obtain ⟨hs, hp⟩ := deeper.refused_of_error hr
    exact ⟨(hs.trans (List.suffix_cons u vs)).trans (hts.trans (List.suffix_cons t us)), hp⟩
  | case4 => exact ⟨t, us, rfl, hts⟩

/-- Reads an operand and the operators that extend it, all further operands with `deeper`. -/
def readAbove (deeper : OperandReader) (p : Precedence) (ts : List Lexeme) : Reading Expression :=
  match readPrimary deeper ts with
  | .ok (left, rest) => extend deeper p left rest
  | .error f => .error f

theorem readAbove_orderly (deeper : OperandReader) (p : Precedence) (ts : List Lexeme) :
    Orderly ts (readAbove deeper p ts) := by
  have h := readPrimary_orderly deeper ts
  unfold readAbove
  split
  · rename_i hr
    rw [hr] at h
    obtain ⟨t, us, rfl, hs⟩ := h
    exact extend_orderly deeper p _ t hs
  · rename_i hr
    rwa [hr] at h

/-- Reads operands with `budget` levels left of the `limit` that a failure names. -/
def reader (limit : Nat) : Nat → OperandReader
  | 0 => ⟨fun _ ts => .error ⟨.tooDeep limit, ts⟩, fun _ _ => ⟨List.suffix_rfl, rfl⟩⟩
  | budget + 1 => ⟨fun p ts => readAbove (reader limit budget) p ts,
      fun p ts => readAbove_orderly (reader limit budget) p ts⟩

/-- Reads the expression at the head of a stream, in at most `limit` levels. -/
def parse (limit : Nat) (ts : List Lexeme) : Reading Expression :=
  (reader limit limit).read .lowest ts

theorem exists_of_parse_eq_ok {limit : Nat} {ts rest : List Lexeme} {e : Expression}
    (h : parse limit ts = .ok (e, rest)) : ∃ t us, ts = t :: us ∧ rest <:+ us :=
  (reader limit limit).exists_of_ok h

theorem refused_of_parse_eq_error {limit : Nat} {ts : List Lexeme} {f : Failure}
    (h : parse limit ts = .error f) : f.rest <:+ ts ∧ f.problem.isExpectation = false :=
  (reader limit limit).refused_of_error h

end MonkeyLang.Expression
