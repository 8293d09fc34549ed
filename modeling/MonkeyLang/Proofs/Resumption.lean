import MonkeyLang.Proofs.Continuation
import MonkeyLang.Proofs.Layout
import MonkeyLang.Proofs.Separation

/-!
# Where reading starts afresh

Two texts with blanks between them parse to what each of them parses to, if what is behind the blanks
cannot be taken for a part of what is before them.

* A `let` or `return` behind the blanks is no part of any statement before it, complete or not, so the
  blanks may be any (`parse_append_of_opensStatement`).
* Where the last statement before the blanks has failed, within its text, nothing of the next line is
  part of it (`parse_append_lineFeed_of_failed`).  A semicolon is the one exception: the failed statement
  ends at it, even where it is the first token of the next line.

Both are read off `Program.outcomes_append`: `Cursor.exists_lexemes_append_blanks` puts the tokens of the
second text behind those of the first, and that the first of them may have come to start a line makes no
difference to what is read from there on (`Program.outcomes_relined`).
-/

namespace MonkeyLang

open Character

/-- The attempts at a text. -/
def attempts (source : String) (settings : Settings) : List Statement.Outcome :=
  Program.outcomes settings.maxDepth source.utf8ByteSize (Cursor.ofString source).lexemes

theorem parse_eq_ofOutcomes_attempts (source : String) (settings : Settings) :
    parse source settings = .ofOutcomes (attempts source settings) :=
  parse_eq_ofOutcomes source settings

theorem head?_tokens (source : String) :
    (tokens source).head? = some (headToken source.utf8ByteSize (Cursor.ofString source).lexemes) := by
  rw [tokens, Cursor.tokens, Cursor.stop_ofString, headToken]
  cases (Cursor.ofString source).lexemes <;> rfl

theorem any_getLast?_tokens (source : String) :
    (tokens source).dropLast.getLast?.any (fun t => t.kind != .semicolon) =
      endsOpen (Cursor.ofString source).lexemes := by
  rw [tokens, Cursor.tokens, List.dropLast_concat, List.getLast?_map, Option.any_map]
  rfl

/-! ## The second text -/

/-- Whether the first lexeme of a stream is there and is a semicolon. -/
def beginsWithSemicolon (ts : List Lexeme) : Bool := ts.head?.any fun t => t.kind == .semicolon

theorem any_head?_tokens (source : String) :
    (tokens source).head?.any (fun t => t.kind == .semicolon) =
      beginsWithSemicolon (Cursor.ofString source).lexemes := by
  rw [head?_tokens]
  cases hts : (Cursor.ofString source).lexemes <;> rfl

/-- The attempts at a stream without the semicolon at its head are those at the stream, but for the one
at the semicolon. -/
theorem Program.outcomes_dropSemicolon (limit stop : Nat) (ts : List Lexeme) :
    outcomes limit stop (Statement.dropSemicolon ts) =
      if beginsWithSemicolon ts then (outcomes limit stop ts).tail else outcomes limit stop ts := by
  cases ts with
  | nil => rfl
  | cons t ts =>
    rw [Statement.dropSemicolon]
    by_cases ht : t.kind = .semicolon
    · have hbegins : beginsWithSemicolon (t :: ts) := beq_of_eq ht
      rw [if_pos ht, if_pos hbegins, outcomes_semicolon ht, List.tail_cons]
    · have hbegins : ¬ beginsWithSemicolon (t :: ts) := fun h => ht (eq_of_beq h)
      rw [if_neg ht, if_neg hbegins]

/-- The lexemes of `b` where they stand behind `a`, the first of them the first on its line if `l` says
so. -/
def Cursor.lexemesBehind (a b : String) (l : Bool) : List Lexeme :=
  relined l ((Cursor.ofString b).lexemes.map (Lexeme.mapSpan (.shift a.utf8ByteSize)))

section Behind

variable (a b : String) (l : Bool)

theorem Cursor.head?_lexemesBehind : (lexemesBehind a b l).head? =
    (Cursor.ofString b).lexemes.head?.map
      fun t => (t.mapSpan (.shift a.utf8ByteSize)).onLine l := by
  rw [lexemesBehind, head?_relined, List.head?_map, Option.map_map]
  rfl

theorem beginsWithSemicolon_lexemesBehind : beginsWithSemicolon (Cursor.lexemesBehind a b l) =
    beginsWithSemicolon (Cursor.ofString b).lexemes := by
  rw [beginsWithSemicolon, Cursor.head?_lexemesBehind, Option.any_map]
  rfl

theorem headToken_lexemesBehind : headToken (a ++ b).utf8ByteSize (Cursor.lexemesBehind a b l) =
    (headToken b.utf8ByteSize (Cursor.ofString b).lexemes).mapSpan (.shift a.utf8ByteSize) := by
  rw [headToken, headToken, Cursor.head?_lexemesBehind, String.utf8ByteSize_append, Nat.add_comm]
  cases (Cursor.ofString b).lexemes <;> rfl

/-- Behind another text, the attempts from the first token of a text on are those at the text. -/
theorem Program.outcomes_lexemesBehind (settings : Settings) :
    outcomes settings.maxDepth (a ++ b).utf8ByteSize (Cursor.lexemesBehind a b l) =
      (attempts b settings).map (Statement.Outcome.mapSpan (.shift a.utf8ByteSize)) := by
  have hshift : Span.shift a.utf8ByteSize (.point b.utf8ByteSize) =
      .point (a ++ b).utf8ByteSize := by
    rw [String.utf8ByteSize_append, Nat.add_comm]
    rfl
  rw [Cursor.lexemesBehind, outcomes_relined, outcomes_mapSpan _ hshift, attempts]

variable {a b l}

theorem Cursor.fresh_lexemesBehind (h : Fresh (Cursor.ofString b).lexemes) :
    Fresh (lexemesBehind a b l) := by
  intro u hu
  rw [head?_lexemesBehind] at hu
  obtain ⟨t, ht, rfl⟩ := Option.map_eq_some_iff.1 hu
  exact h t ht

theorem Cursor.stopsRecovery_lexemesBehind (hl : l) : StopsRecovery (lexemesBehind a b l) := by
  intro u hu
  rw [head?_lexemesBehind] at hu
  obtain ⟨t, -, rfl⟩ := Option.map_eq_some_iff.1 hu
  exact Or.inr (Or.inr hl)

end Behind

/-- **Two texts with blanks between them.**  The attempts at the first and those at the second, if the
second begins with a token that no statement before it goes on with, or if the last attempt at the first
failed and the second is on another line.  A semicolon at the head of the second is left out if it is the
end of a statement of the first. -/
theorem attempts_append_blanks (a b : String) {w : String} (settings : Settings) (hne : w ≠ "")
    (hw : ∀ x ∈ w.toList, isBlank x)
    (h : Fresh (Cursor.ofString b).lexemes ∨ '\n' ∈ w.toList ∧
      Program.FailsInside settings.maxDepth a.utf8ByteSize (Cursor.ofString a).lexemes) :
    attempts (a ++ w ++ b) settings =
      (attempts a settings).map (Statement.Outcome.endedBy a.utf8ByteSize
        ((headToken b.utf8ByteSize (Cursor.ofString b).lexemes).mapSpan
          (.shift (a ++ w).utf8ByteSize))) ++
      (if endsOpen (Cursor.ofString a).lexemes && beginsWithSemicolon (Cursor.ofString b).lexemes
        then (attempts b settings).tail else attempts b settings).map
          (Statement.Outcome.mapSpan (.shift (a ++ w).utf8ByteSize)) := by
  have hspan : ∀ u ∈ (Cursor.ofString a).lexemes, u.token.span ≠ .point a.utf8ByteSize :=
    fun u hu => Cursor.span_ne_point_of_mem_lexemes hu a.utf8ByteSize
  obtain ⟨l, hline, hl⟩ := Cursor.exists_lexemes_append_blanks a b hne hw
  have hl : (Cursor.ofString (a ++ w ++ b)).lexemes =
      (Cursor.ofString a).lexemes ++ Cursor.lexemesBehind (a ++ w) b l := hl
  have hstops : StopsRecovery (Cursor.lexemesBehind (a ++ w) b l) := by
    rcases h with hfresh | ⟨hw, -⟩
    · exact (Cursor.fresh_lexemesBehind hfresh).stopsRecovery
    · exact Cursor.stopsRecovery_lexemesBehind (hline hw)
  rw [attempts, hl,
    Program.outcomes_append _ hstops (h.imp Cursor.fresh_lexemesBehind And.right) hspan,
    headToken_lexemesBehind, ← attempts]
  refine congrArg _ ?_
  cases endsOpen (Cursor.ofString a).lexemes with
  | false =>
    rw [if_neg Bool.false_ne_true, Program.outcomes_lexemesBehind, Bool.false_and,
      if_neg Bool.false_ne_true]
  | true =>
    rw [if_pos rfl, Program.outcomes_dropSemicolon, beginsWithSemicolon_lexemesBehind,
      Program.outcomes_lexemesBehind, ← List.map_tail]
    cases beginsWithSemicolon (Cursor.ofString b).lexemes <;> rfl

/-! ## A statement that opens behind any text -/

/-- **A `let` or `return` starts afresh.**  If the first token of `b` opens a statement, the text of `a`,
blanks and `b` has the statements of `a` and those of `b`.  It has the errors of `a`, where one at the end
of `a`, which can only be the last, is at the first token of `b` now, and then the errors of `b`. -/
theorem parse_append_of_opensStatement (a w b : String) (settings : Settings) (hne : w ≠ "")
    (hw : ∀ x ∈ w.toList, isBlank x) (t : Token) (ht : (tokens b).head? = some t)
    (hopen : t.kind.opensStatement) :
    (parse (a ++ w ++ b) settings).program.statements =
      (parse a settings).program.statements ++
        (parse b settings).program.statements.map (Statement.shift (a ++ w).utf8ByteSize) ∧
    (parse (a ++ w ++ b) settings).errors =
      (parse a settings).errors.map
          (ParseError.endedBy a.utf8ByteSize (t.mapSpan (.shift (a ++ w).utf8ByteSize))) ++
        (parse b settings).errors.map (ParseError.shift (a ++ w).utf8ByteSize) ∧
    ∀ e ∈ (parse a settings).errors.dropLast, e.token.span ≠ .point a.utf8ByteSize := by
  obtain rfl : headToken b.utf8ByteSize (Cursor.ofString b).lexemes = t := by
    rw [head?_tokens] at ht
    exact Option.some.inj ht
  have hhead : ∀ u ∈ (Cursor.ofString b).lexemes.head?, u.kind.opensStatement := by
    intro u hu
    rwa [headToken, Option.mem_def.1 hu] at hopen
  have hbegins : beginsWithSemicolon (Cursor.ofString b).lexemes = false := by
    refine Bool.eq_false_iff.2 fun hc => ?_
    obtain ⟨u, hu, hk⟩ := (Option.any_eq_true _ _).1 hc
    have hu := hhead u hu
    rw [eq_of_beq hk] at hu
    cases hu
  have hos := attempts_append_blanks a b settings hne hw
    (Or.inl fun u hu => Or.inr (hhead u hu))
  rw [hbegins, Bool.and_false, if_neg Bool.false_ne_true] at hos
  rw [parse_eq_ofOutcomes_attempts, parse_eq_ofOutcomes_attempts a, parse_eq_ofOutcomes_attempts b,
    hos, Parse.ofOutcomes_append, Parse.ofOutcomes_map_endedBy, Parse.ofOutcomes_map_shift]
  exact ⟨rfl, rfl, Program.span_ne_of_mem_dropLast_errors settings.maxDepth
    fun u hu => Cursor.span_ne_point_of_mem_lexemes hu a.utf8ByteSize⟩

/-- The binding that `let x` leaves open, with no more than a tab behind it, is given up at `return`. -/
theorem parse_append_of_opensStatement_return :
    let mark : Token := .ofText (.keyword .kwReturn) "return" 0
    (tokens "return 5 @").head? = some mark ∧ mark.kind.opensStatement ∧
    (parse ("let x" ++ "\t" ++ "return 5 @") {}).program.statements =
      [.returning (.ofText (.keyword .kwReturn) "return" 6)
        (.integer (.ofText .integer "5" 13) 5)] ∧
    (parse ("let x" ++ "\t" ++ "return 5 @") {}).errors =
      [⟨.expected (.operator .assign), .ofText (.keyword .kwReturn) "return" 6⟩,
        ⟨.noOperand, .ofText .illegal "@" 15⟩] := by
  intro mark
  have hmark : (tokens "return 5 @").head? = some mark := by decide +kernel
  have hopen : mark.kind.opensStatement := by decide
  obtain ⟨hstatements, herrors, -⟩ := parse_append_of_opensStatement "let x" "\t" "return 5 @" {}
    (by decide) (List.forall_mem_singleton.2 rfl) mark hmark hopen
  exact ⟨hmark, hopen, hstatements.trans (by decide +kernel), herrors.trans (by decide +kernel)⟩

/-! ## A failed statement at the end of a line -/

theorem Statement.Outcome.map_endedBy_eq_self {stop : Nat} (mark : Token) {os : List Outcome}
    (h : ∀ e, .error e ∈ os → e.token.span ≠ .point stop) :
    os.map (endedBy stop mark) = os := by
  refine (List.map_congr_left fun o ho => ?_).trans os.map_id
  cases o with
  | ok s => rfl
  | error e => exact congrArg Except.error (if_neg (h e ho))

theorem error_mem_attempts_iff {source : String} {settings : Settings} {e : ParseError} :
    .error e ∈ attempts source settings ↔ e ∈ (parse source settings).errors := by
  rw [parse_eq_ofOutcomes_attempts]
  exact Parse.mem_filterMap_error?_iff.symm

theorem attempts_of_beginsWithSemicolon {source : String} (settings : Settings)
    (h : beginsWithSemicolon (Cursor.ofString source).lexemes) :
    ∃ t os, (tokens source).head? = some t ∧
      attempts source settings = .error (.emptyStatement settings.maxDepth t) :: os := by
  rw [attempts, head?_tokens]
  cases hts : (Cursor.ofString source).lexemes with
  | nil =>
    rw [hts] at h
    cases h
  | cons t ts =>
    rw [hts] at h
    exact ⟨t.token, _, rfl, Program.outcomes_semicolon (eq_of_beq h) _ _ ts⟩

/-- **A failed statement does not get past its line.**  If the last attempt at `a` failed, and none at the
end of `a`, then the text of `a`, a line feed and `b` has the statements of `a` and those of `b`, and the
errors of `a` and those of `b`.  But a semicolon at the head of `b` is taken for the end of the failed
statement, if `a` does not end with one, and then it is not an error, as it is in `b`. -/
theorem parse_append_lineFeed_of_failed (a b : String) (settings : Settings)
    (hlast : ∀ s, (attempts a settings).getLast? ≠ some (.ok s))
    (hinside : ∀ e ∈ (parse a settings).errors, e.token.span ≠ .point a.utf8ByteSize) :
    let taken : Bool := (tokens a).dropLast.getLast?.any (fun t => t.kind != .semicolon) &&
      (tokens b).head?.any (fun t => t.kind == .semicolon)
    (parse (a ++ "\n" ++ b) settings).program.statements =
      (parse a settings).program.statements ++
        (parse b settings).program.statements.map (Statement.shift (a.utf8ByteSize + 1)) ∧
    (parse (a ++ "\n" ++ b) settings).errors =
      (parse a settings).errors ++
        (if taken then (parse b settings).errors.tail else (parse b settings).errors).map
          (ParseError.shift (a.utf8ByteSize + 1)) ∧
    (taken → ∃ t, (tokens b).head? = some t ∧
      (parse b settings).errors.head? = some (.emptyStatement settings.maxDepth t)) := by
  intro taken
  have htaken : taken = (endsOpen (Cursor.ofString a).lexemes &&
      beginsWithSemicolon (Cursor.ofString b).lexemes) := by
    rw [← any_getLast?_tokens, ← any_head?_tokens]
  have hfails : Program.FailsInside settings.maxDepth a.utf8ByteSize (Cursor.ofString a).lexemes :=
    ⟨fun s hs => hlast s hs, fun e he => hinside e (error_mem_attempts_iff.1 he)⟩
  have hos := attempts_append_blanks a b (w := "\n") settings (by decide)
    (List.forall_mem_singleton.2 rfl) (Or.inr ⟨List.mem_singleton_self _, hfails⟩)
  have hsize : (a ++ "\n").utf8ByteSize = a.utf8ByteSize + 1 := String.utf8ByteSize_append
  have hinner (mark : Token) : (attempts a settings).map
      (Statement.Outcome.endedBy a.utf8ByteSize mark) = attempts a settings :=
    Statement.Outcome.map_endedBy_eq_self mark hfails.inside
  rw [hinner, hsize, ← htaken] at hos
  rw [parse_eq_ofOutcomes_attempts, parse_eq_ofOutcomes_attempts a, parse_eq_ofOutcomes_attempts b,
    hos, Parse.ofOutcomes_append, Parse.ofOutcomes_map_shift]
  cases ht : taken with
  | false => exact ⟨rfl, rfl, fun hc => absurd hc Bool.false_ne_true⟩
  | true =>
    rw [ht] at htaken
    obtain ⟨t, os, hhead, hb⟩ := attempts_of_beginsWithSemicolon settings
      (Bool.and_eq_true_iff.1 htaken.symm).2
    rw [hb]
    exact ⟨rfl, rfl, fun _ => ⟨t, hhead, rfl⟩⟩

/-- A line that begins with a binary operator is refused on its own account, and the line behind it is
read. -/
theorem parse_append_lineFeed_of_failed_operator :
    (attempts "ok; let = 5" {}).getLast? =
      some (.error ⟨.expected .name, .ofText (.operator .assign) "=" 8⟩) ∧
    (∀ e ∈ (parse "ok; let = 5" {}).errors, e.token.span ≠ .point 11) ∧
    (parse ("ok; let = 5" ++ "\n" ++ "+ y\nz") {}).program.statements =
      [.expression (.ofText .name "ok" 0) (.name (.ofText .name "ok" 0)),
        .expression (.ofText .name "z" 16) (.name (.ofText .name "z" 16))] ∧
    (parse ("ok; let = 5" ++ "\n" ++ "+ y\nz") {}).errors =
      [⟨.expected .name, .ofText (.operator .assign) "=" 8⟩,
        ⟨.noOperand, .ofText (.operator .plus) "+" 12⟩] := by
  have hlast : (attempts "ok; let = 5" {}).getLast? =
      some (.error ⟨.expected .name, .ofText (.operator .assign) "=" 8⟩) := by decide +kernel
  have hinside : ∀ e ∈ (parse "ok; let = 5" {}).errors, e.token.span ≠ .point 11 := by
    decide +kernel
  obtain ⟨hstatements, herrors, -⟩ := parse_append_lineFeed_of_failed "ok; let = 5" "+ y\nz" {}
    (by rw [hlast]; exact fun s => nofun) hinside
  exact ⟨hlast, hinside, hstatements.trans (by decide +kernel), herrors.trans (by decide +kernel)⟩

/-- A line that is a semicolon has an error on its own, and has none behind a line that failed. -/
theorem parse_append_lineFeed_semicolon :
    (attempts "@" {}).getLast? = some (.error ⟨.noOperand, .ofText .illegal "@" 0⟩) ∧
    (∀ e ∈ (parse "@" {}).errors, e.token.span ≠ .point 1) ∧
    (parse ("@" ++ "\n" ++ ";") {}).errors ≠
      (parse "@" {}).errors ++ (parse ";" {}).errors.map (ParseError.shift 2) := by
  decide +kernel

end MonkeyLang
