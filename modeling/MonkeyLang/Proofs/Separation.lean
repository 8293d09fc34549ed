import MonkeyLang.Proofs.Continuation
import MonkeyLang.Proofs.Seam

/-!
# A semicolon keeps two texts apart

What stands before a semicolon has no effect on what stands behind it, well-formed or not: the text
`a ++ ";" ++ b` parses to the statements of `a` and then those of `b`, and to the errors of `a` and then
those of `b` (`parse_append_semicolon`).

Of the attempts at a stream with another behind it, `Program.outcomes_append` says what is needed: a
semicolon at the head of the second stream ends the statement that the first leaves open.  It leaves one
open unless it has no token at all or itself ends with a semicolon, for nothing is ever read or skipped
over a semicolon; then the semicolon between is an empty statement, which is refused.
-/

namespace MonkeyLang

/-- The error at a semicolon that ends no statement. -/
def ParseError.emptyStatement (limit : Nat) (mark : Token) : ParseError :=
  ⟨if limit = 0 then .tooDeep 0 else .noOperand, mark⟩

theorem Statement.attempt_semicolon {m : Lexeme} (hm : m.kind = .semicolon) (limit stop : Nat)
    (us : List Lexeme) :
    attempt limit stop m us = ⟨.error (.emptyStatement limit m.token), us⟩ := by
  have hfresh : Fresh (m :: us) := fresh_cons.2 (Or.inl hm)
  rw [attempt_of_parse_eq_error stop (parse_semicolon hm limit us),
    Failure.resume_of_fresh hfresh, dropSemicolon, if_pos hm]
  rfl

theorem Program.outcomes_semicolon {m : Lexeme} (hm : m.kind = .semicolon) (limit stop : Nat)
    (us : List Lexeme) : outcomes limit stop (m :: us) =
      .error (.emptyStatement limit m.token) :: outcomes limit stop us := by
  rw [outcomes_cons, Statement.attempt_semicolon hm]

/-- The attempts at `ts` and then those at what is behind the semicolon, with one more at the semicolon
if `ts` leaves no statement open for it. -/
theorem Program.outcomes_append_semicolon {m : Lexeme} (hm : m.kind = .semicolon) (limit : Nat)
    {stop : Nat} (stop' : Nat) {ts : List Lexeme} (us : List Lexeme)
    (hts : ∀ t ∈ ts, t.token.span ≠ .point stop) :
    outcomes limit stop' (ts ++ m :: us) =
      (outcomes limit stop ts).map (Statement.Outcome.endedBy stop m.token) ++
        (if endsOpen ts then [] else [.error (.emptyStatement limit m.token)]) ++
        outcomes limit stop' us := by
  have hfresh : Fresh (m :: us) := fresh_cons.2 (Or.inl hm)
  have hmark : headToken stop' (m :: us) = m.token := rfl
  rw [outcomes_append stop' hfresh.stopsRecovery (Or.inl hfresh) hts, hmark, List.append_assoc]
  refine congrArg _ ?_
  cases endsOpen ts with
  | true =>
    rw [if_pos rfl, if_pos rfl, Statement.dropSemicolon, if_pos hm, List.nil_append]
  | false =>
    rw [if_neg Bool.false_ne_true, if_neg Bool.false_ne_true, outcomes_semicolon hm]
    rfl

/-! ## Two texts with a semicolon between -/

theorem Cursor.lexemes_append_semicolon (a b : String) :
    ∃ l, (Cursor.ofString (a ++ ";" ++ b)).lexemes =
      (Cursor.ofString a).lexemes ++ ⟨.ofText .semicolon ";" a.utf8ByteSize, l⟩ ::
        (Cursor.ofString b).lexemes.map (Lexeme.mapSpan (.shift (a.utf8ByteSize + 1))) := by
  have habsorb (kind : TokenKind) : kind.absorbs ';' = false := by
    cases kind with
    | operator o => cases o <;> rfl
    | _ => rfl
  have htext : Cursor.ofString (a ++ ";" ++ b) =
      (Cursor.ofString a).append (';' :: b.toList) := by
    simp [Cursor.ofString, Cursor.append]
  have hseam : ∀ t ∈ (Cursor.ofString a).lexemes.getLast?,
      t.token.span.stop = (Cursor.ofString a).stop →
        ∀ d ∈ (';' :: b.toList).head?, t.kind.absorbs d = false := by
    intro t _ _ d hd
    cases hd
    exact habsorb t.kind
  obtain ⟨o, w, hw, ho, heq⟩ := (Cursor.ofString a).lexemes_append hseam
  refine ⟨w.contains '\n', ?_⟩
  rw [htext, heq, Cursor.lexemes_semicolon o hw, ho, Cursor.stop_ofString,
    ← Cursor.lexemes_shift]
  simp [Cursor.ofString, Cursor.shift]

/-- **A semicolon separates.**  The text `a ++ ";" ++ b` has the statements of `a` and those of `b`.  It
has the errors of `a`, where one at the end of `a`, which can only be the last, is at the semicolon now;
then one at the semicolon if `a` has no token or ends with a semicolon; and then the errors of `b`. -/
theorem parse_append_semicolon (a b : String) (settings : Settings) :
    (parse (a ++ ";" ++ b) settings).program.statements =
      (parse a settings).program.statements ++
        (parse b settings).program.statements.map (Statement.shift (a.utf8ByteSize + 1)) ∧
    (parse (a ++ ";" ++ b) settings).errors =
      (parse a settings).errors.map
          (ParseError.endedBy a.utf8ByteSize (.ofText .semicolon ";" a.utf8ByteSize)) ++
        (if (tokens a).dropLast.getLast?.any fun t => t.kind != .semicolon then []
          else [.emptyStatement settings.maxDepth (.ofText .semicolon ";" a.utf8ByteSize)]) ++
        (parse b settings).errors.map (ParseError.shift (a.utf8ByteSize + 1)) ∧
    ∀ e ∈ (parse a settings).errors.dropLast, e.token.span ≠ .point a.utf8ByteSize := by
  have hspan : ∀ t ∈ (Cursor.ofString a).lexemes, t.token.span ≠ .point a.utf8ByteSize :=
    fun t ht => Cursor.span_ne_point_of_mem_lexemes ht a.utf8ByteSize
  have hshift : Span.shift (a.utf8ByteSize + 1) (.point b.utf8ByteSize) =
      .point (a ++ ";" ++ b).utf8ByteSize := by
    have hsize : (a ++ ";" ++ b).utf8ByteSize = a.utf8ByteSize + 1 + b.utf8ByteSize := by
      rw [String.utf8ByteSize_append, String.utf8ByteSize_append]
      rfl
    rw [hsize, Nat.add_comm (a.utf8ByteSize + 1)]
    rfl
  have hlast : (tokens a).dropLast.getLast?.any (fun t => t.kind != .semicolon) =
      endsOpen (Cursor.ofString a).lexemes := by
    rw [tokens, Cursor.tokens, List.dropLast_concat, List.getLast?_map, Option.any_map]
    rfl
  obtain ⟨l, hl⟩ := Cursor.lexemes_append_semicolon a b
  have hos := Program.outcomes_append_semicolon (m := ⟨.ofText .semicolon ";" a.utf8ByteSize, l⟩)
    rfl settings.maxDepth (a ++ ";" ++ b).utf8ByteSize
    ((Cursor.ofString b).lexemes.map (Lexeme.mapSpan (.shift (a.utf8ByteSize + 1)))) hspan
  rw [Program.outcomes_mapSpan _ hshift] at hos
  rw [parse_eq_ofOutcomes, parse_eq_ofOutcomes, parse_eq_ofOutcomes, hl, hos, hlast]
  refine ⟨?_, ?_, Program.span_ne_of_mem_dropLast_errors settings.maxDepth hspan⟩
  · simp only [Parse.ofOutcomes, List.filterMap_append, Parse.filterMap_statement?_endedBy,
      Parse.filterMap_statement?_mapSpan]
    have hnone (e : ParseError) :
        (if endsOpen (Cursor.ofString a).lexemes then [] else [Except.error e]).filterMap
          Parse.statement? = [] := by split <;> rfl
    rw [hnone, List.append_nil]
    rfl
  · simp only [Parse.ofOutcomes, List.filterMap_append, Parse.filterMap_error?_endedBy,
      Parse.filterMap_error?_mapSpan]
    split <;> rfl

end MonkeyLang
