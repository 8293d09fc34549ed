import Mathlib.Data.List.Nodup
import MonkeyLang.Proofs.Acceptance
import MonkeyLang.Proofs.Scanning

/-!
# Tokens that are blamed twice

An error blames a token.  Two errors of one text blame different tokens, save in one case, which
`nodup_errors_iff` states exactly: a token at the start of a line stands where another kind of token was
expected, and no statement begins with it (`Lexeme.isStranded`).  Recovery then takes it for the start of
the next statement, and the attempt at that statement refuses it.

The proof follows the attempts.  An attempt blames the lexeme with which it begins exactly if no statement
begins with it (`Program.span_mem_blamed_cons_iff`), and no later attempt gets back to that lexeme; so all
hangs on whether recovery stays at the token that was blamed (`Program.span_mem_blamed_resume_iff`).
-/

namespace MonkeyLang

/-- Whether an operand begins with the lexeme: a name, an integer of the language, or a unary operator. -/
def Lexeme.beginsOperand (t : Lexeme) : Bool :=
  t.kind.beginsOperand && (t.kind != .integer || (Numeral.read? t.token.literal.toList).isSome)

/-- Whether a statement begins with the lexeme, if an expression may have `limit` levels. -/
def Lexeme.beginsStatement (limit : Nat) (t : Lexeme) : Bool :=
  t.kind.opensStatement || (limit != 0 && t.beginsOperand)

/-- Whether recovery stops at the lexeme because a line begins with it, although no statement does. -/
def Lexeme.isStranded (limit : Nat) (t : Lexeme) : Bool :=
  t.startsLine && t.kind != .semicolon && !t.beginsStatement limit

theorem Lexeme.isStranded_iff {limit : Nat} {t : Lexeme} : t.isStranded limit ↔
    t.startsLine ∧ t.kind ≠ .semicolon ∧ t.beginsStatement limit = false := by
  simp [isStranded, and_assoc]

/-! ## Attempts that fail at their first lexeme -/

namespace Expression

variable {deeper : OperandReader} {t : Lexeme} {ts : List Lexeme} {x : Failure}

theorem rest_suffix_of_extend_eq_error {p : Precedence} {left : Expression}
    (h : extend deeper p left ts = .error x) : x.rest <:+ ts := by
  fun_induction extend deeper p left ts with
  | case1 => cases h
  | case2 left t ts _ right rest hr ih =>
    obtain ⟨u, us, rfl, hs⟩ := deeper.exists_of_ok hr
    exact ((ih h).trans (hs.trans (List.suffix_cons u us))).trans (List.suffix_cons t _)
  | case3 left t ts _ y hr =>
    cases h
    exact (deeper.refused_of_error hr).1.trans (List.suffix_cons t ts)
  | case4 => cases h

theorem readPrimary_of_not_beginsOperand (deeper : OperandReader) (ht : t.beginsOperand = false)
    (ts : List Lexeme) :
    ∃ problem, readPrimary deeper (t :: ts) = .error ⟨problem, t :: ts⟩ := by
  cases hb : t.kind.beginsOperand with
  | false => exact ⟨.noOperand, readPrimary_cons_refused deeper hb ts⟩
  | true =>
    rw [Lexeme.beginsOperand, hb, Bool.true_and, Bool.or_eq_false_iff] at ht
    obtain ⟨hk, hn⟩ := ht
    have hk : t.kind = .integer := by simpa using hk
    have hn : Numeral.read? t.token.literal.toList = none := by simpa using hn
    exact ⟨.integerTooGreat, by simp only [readPrimary, hk, hn]⟩

theorem rest_suffix_of_readPrimary_eq_error (ht : t.beginsOperand)
    (h : readPrimary deeper (t :: ts) = .error x) : x.rest <:+ ts := by
  obtain ⟨hb, hn⟩ := Bool.and_eq_true_iff.1 ht
  rcases TokenKind.beginsOperand_iff.1 hb with hk | hk | hu
  · rw [readPrimary_name deeper hk] at h
    cases h
  · have hn : (Numeral.read? t.token.literal.toList).isSome := by simpa [hk] using hn
    obtain ⟨n, hn⟩ := Option.isSome_iff_exists.1 hn
    rw [readPrimary_integer deeper hk hn] at h
    cases h
  · rw [readPrimary_cons_unary deeper hu] at h
    cases hr : deeper.read .unary ts with
    | ok r =>
      rw [hr] at h
      cases h
    | error y =>
      rw [hr] at h
      cases h
      exact (deeper.refused_of_error hr).1

theorem parse_of_not_beginsOperand {limit : Nat} (ht : limit = 0 ∨ t.beginsOperand = false)
    (ts : List Lexeme) :
    ∃ problem, parse limit (t :: ts) = .error ⟨problem, t :: ts⟩ := by
  cases limit with
  | zero => exact ⟨.tooDeep 0, rfl⟩
  | succ n =>
    have ht := ht.resolve_left (Nat.succ_ne_zero n)
    obtain ⟨problem, h⟩ := readPrimary_of_not_beginsOperand (reader (n + 1) n) ht ts
    refine ⟨problem, ?_⟩
    show readAbove _ _ _ = _
    rw [readAbove, h]

theorem rest_suffix_of_parse_eq_error {limit : Nat} (hlimit : limit ≠ 0) (ht : t.beginsOperand)
    (h : parse limit (t :: ts) = .error x) : x.rest <:+ ts := by
  obtain ⟨n, rfl⟩ := Nat.exists_eq_succ_of_ne_zero hlimit
  have h : readAbove (reader (n + 1) n) .lowest (t :: ts) = .error x := h
  cases hp : readPrimary (reader (n + 1) n) (t :: ts) with
  | ok r =>
    obtain ⟨left, rest⟩ := r
    rw [readAbove, hp] at h
    have horderly := readPrimary_orderly (reader (n + 1) n) (t :: ts)
    rw [hp] at horderly
    obtain ⟨u, us, hu, hs⟩ := horderly
    obtain ⟨rfl, rfl⟩ := List.cons.inj hu
    exact (rest_suffix_of_extend_eq_error h).trans hs
  | error y =>
    rw [readAbove, hp] at h
    cases h
    exact rest_suffix_of_readPrimary_eq_error ht hp

end Expression

namespace Statement

variable {limit : Nat} {t : Lexeme} {ts : List Lexeme}

theorem parse_of_not_beginsStatement (ht : t.beginsStatement limit = false) (ts : List Lexeme) :
    ∃ problem, parse limit t ts = .error ⟨problem, t :: ts⟩ := by
  obtain ⟨hopen, ht⟩ := Bool.or_eq_false_iff.1 ht
  have hoperand : limit = 0 ∨ t.beginsOperand = false := by
    rcases Bool.and_eq_false_iff.1 ht with h | h
    · exact Or.inl (by simpa using h)
    · exact Or.inr h
  obtain ⟨problem, h⟩ := Expression.parse_of_not_beginsOperand hoperand ts
  refine ⟨problem, ?_⟩
  rw [parse_of_not_opensStatement limit hopen]
  exact readExpression_eq_error_iff.2 h

theorem rest_suffix_of_beginsStatement (ht : t.beginsStatement limit) {x : Failure}
    (h : parse limit t ts = .error x) : x.rest <:+ ts := by
  cases hopen : t.kind.opensStatement with
  | true => exact rest_suffix_of_opensStatement hopen h
  | false =>
    rw [Lexeme.beginsStatement, hopen, Bool.false_or, Bool.and_eq_true_iff] at ht
    rw [parse_of_not_opensStatement limit hopen] at h
    exact Expression.rest_suffix_of_parse_eq_error (by simpa using ht.1) ht.2
      (readExpression_eq_error_iff.1 h)

end Statement

/-! ## The tokens that are blamed -/

/-- The spans of the tokens that the attempts at a stream blame. -/
def Program.blamed (limit stop : Nat) (ts : List Lexeme) : List Span :=
  ((outcomes limit stop ts).filterMap Parse.error?).map (·.token.span)

namespace Program

variable {limit stop : Nat} {t : Lexeme} {ts : List Lexeme}

theorem blamed_cons_of_ok {s : Statement} {rest : List Lexeme}
    (h : Statement.parse limit t ts = .ok (s, rest)) :
    blamed limit stop (t :: ts) = blamed limit stop (Statement.dropSemicolon rest) := by
  rw [blamed, outcomes_cons_of_ok stop h]
  rfl

theorem blamed_cons_of_error {x : Failure} (h : Statement.parse limit t ts = .error x) :
    blamed limit stop (t :: ts) = (x.error stop).token.span :: blamed limit stop x.resume := by
  rw [blamed, outcomes_cons_of_error stop h]
  rfl

theorem span_error_ne {x : Failure} {span : Span} (hstop : span ≠ .point stop)
    (hx : ∀ t ∈ x.rest, t.token.span ≠ span) : span ≠ (x.error stop).token.span := by
  obtain ⟨problem, rest⟩ := x
  cases rest with
  | nil => exact hstop
  | cons t rest => exact (hx t List.mem_cons_self).symm

/-- Only tokens of the stream are blamed, and the end of the text. -/
theorem span_notMem_blamed {span : Span} (hstop : span ≠ .point stop)
    (hts : ∀ t ∈ ts, t.token.span ≠ span) : span ∉ blamed limit stop ts := by
  induction ts using attempts_induction limit with
  | nil =>
    rw [blamed, outcomes_nil]
    exact List.not_mem_nil
  | ok t ts s rest hp hrest ih =>
    rw [blamed_cons_of_ok hp]
    exact ih fun u hu => hts u (hrest.subset hu)
  | error t ts x hp hrest ih =>
    have hx := Statement.rest_suffix_of_parse_eq_error hp
    rw [blamed_cons_of_error hp]
    exact List.not_mem_cons_of_ne_of_not_mem
      (span_error_ne hstop fun u hu => hts u (hx.subset hu))
      (ih fun u hu => hts u (hrest.subset hu))

/-- An attempt blames the lexeme with which it begins exactly if no statement begins with it. -/
theorem span_mem_blamed_cons_iff (limit : Nat) (hstop : t.token.span ≠ .point stop)
    (hts : ∀ u ∈ ts, u.token.span ≠ t.token.span) :
    t.token.span ∈ blamed limit stop (t :: ts) ↔ t.beginsStatement limit = false := by
  cases ht : t.beginsStatement limit with
  | false =>
    obtain ⟨problem, h⟩ := Statement.parse_of_not_beginsStatement ht ts
    rw [blamed_cons_of_error h]
    exact iff_of_true List.mem_cons_self rfl
  | true =>
    refine iff_of_false ?_ Bool.false_ne_true.symm
    cases hp : Statement.parse limit t ts with
    | ok r =>
      obtain ⟨s, rest⟩ := r
      have hsuf := (Statement.dropSemicolon_suffix rest).trans
        (Statement.rest_suffix_of_parse_eq_ok hp)
      rw [blamed_cons_of_ok hp]
      exact span_notMem_blamed hstop fun u hu => hts u (hsuf.subset hu)
    | error x =>
      have hsuf := Statement.rest_suffix_of_beginsStatement ht hp
      have hrest := x.resume_suffix.trans hsuf
      rw [blamed_cons_of_error hp]
      exact List.not_mem_cons_of_ne_of_not_mem
        (span_error_ne hstop fun u hu => hts u (hsuf.subset hu))
        (span_notMem_blamed hstop fun u hu => hts u (hrest.subset hu))

/-- After a failure at a lexeme, that lexeme is blamed once more exactly if another kind was expected and
the lexeme is stranded. -/
theorem span_mem_blamed_resume_iff (problem : Problem) (hstop : t.token.span ≠ .point stop)
    (hts : ∀ u ∈ ts, u.token.span ≠ t.token.span) :
    t.token.span ∈ blamed limit stop (Failure.resume ⟨problem, t :: ts⟩) ↔
      problem.isExpectation ∧ t.isStranded limit := by
  have hpast {us : List Lexeme} (hus : us <:+ ts) : t.token.span ∉ blamed limit stop us :=
    span_notMem_blamed hstop fun u hu => hts u (hus.subset hu)
  have hat := span_mem_blamed_cons_iff limit hstop hts
  -- Where another kind was expected, recovery may stay at the lexeme; a refused lexeme it passes, unless a
  -- statement opens at it.
  cases hp : problem.isExpectation with
  | true =>
    have hresume : Failure.resume ⟨problem, t :: ts⟩ = skipStatement (t :: ts) := if_pos hp
    rw [hresume, skipStatement, Lexeme.isStranded_iff]
    by_cases hk : t.kind = .semicolon
    · rw [if_pos hk]
      exact iff_of_false (hpast List.suffix_rfl) fun h => h.2.2.1 hk
    · rw [if_neg hk]
      by_cases hs : t.kind.opensStatement || t.startsLine
      · rw [if_pos hs, hat]
        refine ⟨fun hb => ⟨rfl, ?_, hk, hb⟩, fun h => h.2.2.2⟩
        have hopen : t.kind.opensStatement = false := (Bool.or_eq_false_iff.1 hb).1
        rwa [hopen, Bool.false_or] at hs
      · rw [if_neg hs]
        exact iff_of_false (hpast (skipStatement_suffix ts)) fun h =>
          hs (Bool.or_eq_true_iff.2 (Or.inr h.2.1))
  | false =>
    have hresume : Failure.resume ⟨problem, t :: ts⟩ = skipRefused (t :: ts) := by
      rw [Failure.resume, hp]
      rfl
    refine iff_of_false ?_ fun h => Bool.false_ne_true h.1
    rw [hresume, skipRefused]
    by_cases hk : t.kind = .semicolon
    · rw [if_pos hk]
      exact hpast List.suffix_rfl
    · rw [if_neg hk]
      by_cases hs : t.kind.opensStatement
      · rw [if_pos hs, hat, Lexeme.beginsStatement, hs, Bool.true_or]
        exact Bool.false_ne_true.symm
      · rw [if_neg hs]
        exact hpast (skipStatement_suffix ts)

section Row

variable {row : List Lexeme} (hrow : (row.map (·.token.span)).Nodup)
  (hstop : ∀ t ∈ row, t.token.span ≠ .point stop)

include hrow hstop

theorem span_notMem_blamed_resume_iff {x : Failure} (hx : x.rest <:+ row) :
    (x.error stop).token.span ∉ blamed limit stop x.resume ↔
      (x.problem.isExpectation →
        ∀ t ∈ row, t.token = (x.error stop).token → t.isStranded limit = false) := by
  obtain ⟨problem, rest⟩ := x
  cases rest with
  | nil =>
    have hresume : Failure.resume ⟨problem, []⟩ = [] := List.suffix_nil.1 (Failure.resume_suffix _)
    rw [hresume, blamed, outcomes_nil]
    refine iff_of_true List.not_mem_nil fun _ t ht htoken => absurd ?_ (hstop t ht)
    rw [htoken]
    rfl
  | cons u us =>
    have hu : u ∈ row := hx.subset List.mem_cons_self
    have hus : ∀ v ∈ us, v.token.span ≠ u.token.span := by
      have hcons := hrow.sublist (hx.sublist.map fun t => t.token.span)
      intro v hv hspan
      exact (List.nodup_cons.1 hcons).1 (List.mem_map.2 ⟨v, hv, hspan⟩)
    have htoken : (Failure.error ⟨problem, u :: us⟩ stop).token = u.token := rfl
    rw [htoken, span_mem_blamed_resume_iff problem (hstop u hu) hus, not_and, Bool.not_eq_true]
    refine forall_congr' fun _ => ⟨fun h t ht heq => ?_, fun h => h u hu rfl⟩
    -- A token of the row is that of one lexeme only.
    obtain rfl : t = u := List.inj_on_of_nodup_map hrow ht hu (congrArg Token.span heq)
    exact h

/-- All attempts at a part of the row blame different tokens exactly if no lexeme of the row is stranded
that is blamed where another kind was expected. -/
theorem nodup_blamed_iff (hts : ts <:+ row) :
    (blamed limit stop ts).Nodup ↔
      ∀ e ∈ (outcomes limit stop ts).filterMap Parse.error?, e.problem.isExpectation →
        ∀ t ∈ row, t.token = e.token → t.isStranded limit = false := by
  induction ts using attempts_induction limit with
  | nil =>
    rw [blamed, outcomes_nil]
    exact iff_of_true List.nodup_nil (List.forall_mem_nil _)
  | ok t ts s rest hp hrest ih =>
    rw [blamed_cons_of_ok hp, outcomes_cons_of_ok stop hp]
    exact ih (hrest.trans hts)
  | error t ts x hp hrest ih =>
    have hx := (Statement.rest_suffix_of_parse_eq_error hp).trans hts
    have herrors : (outcomes limit stop (t :: ts)).filterMap Parse.error? =
        x.error stop :: (outcomes limit stop x.resume).filterMap Parse.error? := by
      rw [outcomes_cons_of_error stop hp]
      rfl
    rw [blamed_cons_of_error hp, herrors, List.nodup_cons, List.forall_mem_cons]
    exact and_congr (span_notMem_blamed_resume_iff hrow hstop hx) (ih (hrest.trans hts))

end Row

end Program

/-! ## The errors of a text -/

theorem InOrder.nodup_span {ts : List Token} (h : InOrder ts) : (ts.map Token.span).Nodup := by
  refine List.pairwise_map.2 (h.pairwise.imp_of_mem fun {t u} ht _ hle heq => ?_)
  have hlt := h.start_lt_stop t ht
  rw [heq] at hlt hle
  omega

theorem Cursor.nodup_span_lexemes (c : Cursor) : (c.lexemes.map (·.token.span)).Nodup := by
  have h := c.inOrder_lexemes.nodup_span
  rwa [List.map_map] at h

/-- **No token is blamed twice, but for one that is stranded.**  The errors of a text have different spans
exactly if, of the tokens that are blamed because another kind was expected, none is the first of its line
without being a semicolon or the beginning of a statement. -/
theorem nodup_errors_iff (source : String) (settings : Settings) :
    ((parse source settings).errors.map (·.token.span)).Nodup ↔
      ∀ e ∈ (parse source settings).errors, e.problem.isExpectation →
        ∀ t ∈ (Cursor.ofString source).lexemes, t.token = e.token →
          t.isStranded settings.maxDepth = false := by
  rw [parse_eq_ofOutcomes]
  exact Program.nodup_blamed_iff (Cursor.ofString source).nodup_span_lexemes
    (fun t ht => Cursor.span_ne_point_of_mem_lexemes ht source.utf8ByteSize) List.suffix_rfl

/-- The character that stands where a name was expected is refused as a statement of its own too. -/
theorem not_nodup_errors_let :
    ¬ ((parse "let\n@" {}).errors.map (·.token.span)).Nodup := by
  decide +kernel

end MonkeyLang
