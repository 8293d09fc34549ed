import MonkeyLang.Program.Grammar
import MonkeyLang.Program.Parse
import MonkeyLang.Proofs.Climbing

/-!
# A text is accepted exactly if the grammar writes it

`Statement.WrittenWith` and `Program.WrittenWith` tell which rows of tokens a tree can be written with.
Here they meet the readings: `Statement.parse_eq_ok_iff` for one statement, and
`Program.outcomes_eq_map_ok_iff` for a series of attempts none of which fails.  A text then parses to
`p` without an error exactly if its tokens are a row that `p` is written with and every value in `p` is
legal within the limit (`parse_eq_iff_writtenWith`); as parsing gives one answer, the tree is the only
one.

A statement without a semicolon ends where no binary operator follows, and the next statement never
begins with a semicolon (`Program.WrittenWith.head?_ne_semicolon`), so what the reading drops after a
statement is what the row has there.
-/

namespace MonkeyLang

/-- Whether an operand begins with every token of this kind. -/
def TokenKind.beginsOperand : TokenKind → Bool
  | name => true
  | integer => true
  | kind => kind.isUnary

theorem TokenKind.beginsOperand_iff {kind : TokenKind} :
    kind.beginsOperand ↔ kind = name ∨ kind = integer ∨ kind.isUnary := by
  cases kind <;> simp [beginsOperand, isUnary]

namespace Expression

theorem readPrimary_cons_unary (deeper : OperandReader) {t : Lexeme} (ht : t.kind.isUnary)
    (ts : List Lexeme) : readPrimary deeper (t :: ts) =
      match deeper.read .unary ts with
      | .ok (operand, rest) => .ok (unary t.token operand, rest)
      | .error f => .error f := by
  cases hk : t.kind with
  | operator o =>
    rw [hk] at ht
    cases hr : deeper.read .unary ts with
    | ok r => simp only [readPrimary, hk, ht, hr, if_true]
    | error f => simp only [readPrimary, hk, ht, hr, if_true]
  | _ =>
    rw [hk] at ht
    cases ht

/-- A token with which no operand begins is refused. -/
theorem readPrimary_cons_refused (deeper : OperandReader) {t : Lexeme}
    (ht : t.kind.beginsOperand = false) (ts : List Lexeme) :
    readPrimary deeper (t :: ts) = .error ⟨.noOperand, t :: ts⟩ := by
  cases hk : t.kind with
  | name | integer =>
    rw [hk] at ht
    cases ht
  | operator o =>
    rw [hk] at ht
    have hu : (TokenKind.operator o).isUnary = false := ht
    simp only [readPrimary, hk, hu]
    rfl
  | _ =>
    simp only [readPrimary, hk]
    rfl

end Expression

theorem Expression.WellFormed.exists_head {e : Expression} (h : e.WellFormed) :
    ∃ t ts, e.tokens = t :: ts ∧ t.kind.beginsOperand := by
  induction e with
  | name token =>
    have hk : token.kind = .name := h
    exact ⟨token, [], rfl, by rw [hk]; rfl⟩
  | integer token value => exact ⟨token, [], rfl, by rw [h.1]; rfl⟩
  | unary operator operand ih =>
    refine ⟨operator, operand.tokens, rfl, ?_⟩
    have hu := h.1
    revert hu
    cases operator.kind with
    | operator o => exact id
    | _ => intro hu; cases hu
  | binary left operator right ihl ihr =>
    obtain ⟨t, ts, hts, ht⟩ := ihl h.2.1
    exact ⟨t, ts ++ operator :: right.tokens, by rw [tokens, hts, List.cons_append], ht⟩

namespace Statement

/-! ## One statement -/

theorem parse_of_not_opensStatement (limit : Nat) {t : Lexeme} (ht : t.kind.opensStatement = false)
    (rest : List Lexeme) : parse limit t rest = readExpression limit t.token (t :: rest) := by
  unfold parse
  split
  · rename_i hk
    rw [hk] at ht
    cases ht
  · rename_i hk
    rw [hk] at ht
    cases ht
  · rfl

theorem parse_of_beginsOperand (limit : Nat) {t : Lexeme} (ht : t.kind.beginsOperand)
    (rest : List Lexeme) : parse limit t rest = readExpression limit t.token (t :: rest) := by
  refine parse_of_not_opensStatement limit ?_ rest
  cases hk : t.kind with
  | keyword k =>
    rw [hk] at ht
    cases ht
  | _ => rfl

/-- What a reading of a statement returns is written with the lexemes that it took. -/
theorem writtenWith_of_parse_eq_ok {limit : Nat} {t : Lexeme} {ts rest : List Lexeme}
    {s : Statement} (h : parse limit t ts = .ok (s, rest)) :
    ∃ us, t :: ts = us ++ rest ∧ s.WrittenWith (us.map (·.token)) ∧ s.value.Legal limit ∧
      ∀ u ∈ rest.head?, u.kind.isBinary = false := by
  unfold parse at h
  split at h
  · rename_i ht
    obtain ⟨n, a, vs, e, rfl, hn, ha, he, rfl⟩ := readBinding_eq_ok_iff.1 h
    obtain ⟨us, rfl, hus, hl, hrest⟩ := Expression.parse_eq_ok_iff.1 he
    refine ⟨t :: n :: a :: us, rfl, ?_, hl, hrest⟩
    rw [List.map_cons, List.map_cons, List.map_cons, hus]
    exact .binding ht hn ha
  · rename_i ht
    obtain ⟨e, he, rfl⟩ := readReturning_eq_ok_iff.1 h
    obtain ⟨us, rfl, hus, hl, hrest⟩ := Expression.parse_eq_ok_iff.1 he
    refine ⟨t :: us, rfl, ?_, hl, hrest⟩
    rw [List.map_cons, hus]
    exact .returning ht
  · obtain ⟨e, he, rfl⟩ := readExpression_eq_ok_iff.1 h
    obtain ⟨us, hts, hus, hl, hrest⟩ := Expression.parse_eq_ok_iff.1 he
    refine ⟨us, hts, ?_, hl, hrest⟩
    rw [hus]
    refine .expression ?_
    cases us with
    | nil => exact absurd hus.symm e.tokens_ne_nil
    | cons u vs =>
      obtain ⟨rfl, -⟩ := List.cons.inj hts
      rw [← hus, List.map_cons, List.head?_cons]

/-- A row that a statement is written with is read as that statement. -/
theorem parse_of_writtenWith {limit : Nat} {t : Lexeme} {us rest : List Lexeme} {s : Statement}
    (hs : s.WrittenWith (t.token :: us.map (·.token))) (hl : s.value.Legal limit)
    (hrest : ∀ u ∈ rest.head?, u.kind.isBinary = false) :
    parse limit t (us ++ rest) = .ok (s, rest) := by
  generalize hrow : t.token :: us.map (·.token) = row at hs
  cases hs with
  | @binding token name sign value ht hn ha =>
    obtain ⟨rfl, hus⟩ := List.cons.inj hrow
    obtain ⟨n, vs, rfl, rfl, hvs⟩ := List.map_eq_cons_iff.1 hus
    obtain ⟨a, ws, rfl, rfl, hws⟩ := List.map_eq_cons_iff.1 hvs
    have he := Expression.parse_eq_ok_iff.2 ⟨ws, rfl, hws, hl, hrest⟩
    have hk : t.kind = .keyword .kwLet := ht
    rw [parse, hk]
    exact readBinding_eq_ok_iff.2 ⟨n, a, ws ++ rest, value, rfl, hn, ha, he, rfl⟩
  | @returning token value ht =>
    obtain ⟨rfl, hus⟩ := List.cons.inj hrow
    have he := Expression.parse_eq_ok_iff.2 ⟨us, rfl, hus, hl, hrest⟩
    have hk : t.kind = .keyword .kwReturn := ht
    rw [parse, hk]
    exact readReturning_eq_ok_iff.2 ⟨value, he, rfl⟩
  | @expression token value ht =>
    have hw : value.WellFormed := hl.wellFormed
    obtain ⟨u, vs, hvs, hu⟩ := hw.exists_head
    rw [← hrow] at ht hvs
    obtain ⟨rfl, -⟩ := List.cons.inj hvs
    cases ht
    have he := Expression.parse_eq_ok_iff.2 ⟨t :: us, rfl, hrow, hl, hrest⟩
    rw [parse_of_beginsOperand limit hu]
    exact readExpression_eq_ok_iff.2 ⟨value, he, rfl⟩

theorem parse_eq_ok_iff {limit : Nat} {t : Lexeme} {ts rest : List Lexeme} {s : Statement} :
    parse limit t ts = .ok (s, rest) ↔
      ∃ us, t :: ts = us ++ rest ∧ s.WrittenWith (us.map (·.token)) ∧ s.value.Legal limit ∧
        ∀ u ∈ rest.head?, u.kind.isBinary = false := by
  constructor
  · exact writtenWith_of_parse_eq_ok
  · rintro ⟨us, hts, hs, hl, hrest⟩
    cases us with
    | nil => exact absurd hs.head? (by simp)
    | cons u us =>
      obtain ⟨rfl, rfl⟩ := List.cons.inj hts
      exact parse_of_writtenWith hs hl hrest

/-- The lexeme with which a statement opens is not the offending one. -/
theorem rest_suffix_of_opensStatement {limit : Nat} {t : Lexeme} (ht : t.kind.opensStatement)
    {ts : List Lexeme} {f : Failure} (h : parse limit t ts = .error f) : f.rest <:+ ts := by
  unfold parse at h
  split at h
  · rcases readBinding_eq_error_iff.1 h with h | ⟨n, us, rfl, -, h | ⟨a, vs, rfl, -, h⟩⟩
    · obtain ⟨rfl, -⟩ := expect_eq_error_iff.1 h
      exact List.suffix_rfl
    · obtain ⟨rfl, -⟩ := expect_eq_error_iff.1 h
      exact List.suffix_cons n us
    · exact (Expression.refused_of_parse_eq_error h).1.trans ⟨[n, a], rfl⟩
  · exact (Expression.refused_of_parse_eq_error (readReturning_eq_error_iff.1 h)).1
  · rename_i hlet hreturn
    rcases TokenKind.opensStatement_iff.1 ht with hk | hk
    · exact absurd hk hlet
    · exact absurd hk hreturn

/-- The offending lexeme of a statement is one of its own or one behind it. -/
theorem rest_suffix_of_parse_eq_error {limit : Nat} {t : Lexeme} {ts : List Lexeme} {f : Failure}
    (h : parse limit t ts = .error f) : f.rest <:+ t :: ts := by
  cases ht : t.kind.opensStatement with
  | true => exact (rest_suffix_of_opensStatement ht h).trans (List.suffix_cons t ts)
  | false =>
    rw [parse_of_not_opensStatement limit ht] at h
    exact (Expression.refused_of_parse_eq_error (readExpression_eq_error_iff.1 h)).1

theorem attempt_of_parse_eq_ok {limit : Nat} (stop : Nat) {t : Lexeme} {ts rest : List Lexeme}
    {s : Statement} (h : parse limit t ts = .ok (s, rest)) :
    attempt limit stop t ts = ⟨.ok s, dropSemicolon rest⟩ := by
  rw [attempt, h]

theorem attempt_of_parse_eq_error {limit : Nat} (stop : Nat) {t : Lexeme} {ts : List Lexeme}
    {f : Failure} (h : parse limit t ts = .error f) :
    attempt limit stop t ts = ⟨.error (f.error stop), f.resume⟩ := by
  rw [attempt, h]

theorem attempt_rest_suffix_cons (limit stop : Nat) (t : Lexeme) (ts : List Lexeme) :
    (attempt limit stop t ts).rest <:+ t :: ts :=
  (attempt_rest_suffix limit stop t ts).trans (List.suffix_cons t ts)

/-- An attempt that gives a statement has read it. -/
theorem exists_parse_of_outcome_eq_ok {limit stop : Nat} {t : Lexeme} {ts : List Lexeme}
    {s : Statement} (h : (attempt limit stop t ts).outcome = .ok s) :
    ∃ rest, parse limit t ts = .ok (s, rest) ∧
      (attempt limit stop t ts).rest = dropSemicolon rest := by
  cases hp : parse limit t ts with
  | ok r =>
    obtain ⟨s', rest⟩ := r
    rw [attempt_of_parse_eq_ok stop hp] at h ⊢
    cases h
    exact ⟨rest, rfl, rfl⟩
  | error f =>
    rw [attempt_of_parse_eq_error stop hp] at h
    cases h

end Statement

/-! ## Programs -/

namespace Program

/-- No statement begins with a semicolon. -/
theorem WrittenWith.head?_ne_semicolon {limit : Nat} {ss : List Statement} {ts : List Token}
    (h : WrittenWith ss ts) (hl : ∀ s ∈ ss, s.value.Legal limit) :
    ∀ t ∈ ts.head?, t.kind ≠ .semicolon := by
  have hfirst {s : Statement} {us : List Token} (hs : s.WrittenWith us)
      (hv : s.value.Legal limit) : ∃ t us', us = t :: us' ∧ t.kind ≠ .semicolon := by
    cases hs with
    | binding ht =>
      refine ⟨_, _, rfl, ?_⟩
      rw [ht]
      decide
    | returning ht =>
      refine ⟨_, _, rfl, ?_⟩
      rw [ht]
      decide
    | @expression token value ht =>
      have hw : value.WellFormed := hv.wellFormed
      obtain ⟨t, us', hus, hb⟩ := hw.exists_head
      refine ⟨t, us', hus, fun hk => ?_⟩
      rw [hk] at hb
      cases hb
  cases h with
  | nil =>
    intro t ht
    cases ht
  | bare hs | ended hs =>
    obtain ⟨t, us, rfl, ht⟩ := hfirst hs (hl _ List.mem_cons_self)
    intro u hu
    cases hu
    exact ht

theorem dropSemicolon_of_head? {ts : List Lexeme} (h : ∀ t ∈ ts.head?, t.kind ≠ .semicolon) :
    Statement.dropSemicolon ts = ts := by
  cases ts with
  | nil => rfl
  | cons t ts => rw [Statement.dropSemicolon, if_neg (h t rfl)]

theorem outcomes_cons (limit stop : Nat) (t : Lexeme) (ts : List Lexeme) :
    outcomes limit stop (t :: ts) = (Statement.attempt limit stop t ts).outcome ::
      outcomes limit stop (Statement.attempt limit stop t ts).rest := by
  rw [outcomes]

@[simp] theorem outcomes_nil (limit stop : Nat) : outcomes limit stop [] = [] := by
  rw [outcomes]

theorem outcomes_cons_of_ok {limit : Nat} (stop : Nat) {t : Lexeme} {ts rest : List Lexeme}
    {s : Statement} (h : Statement.parse limit t ts = .ok (s, rest)) :
    outcomes limit stop (t :: ts) =
      .ok s :: outcomes limit stop (Statement.dropSemicolon rest) := by
  rw [outcomes_cons, Statement.attempt_of_parse_eq_ok stop h]

theorem outcomes_cons_of_error {limit : Nat} (stop : Nat) {t : Lexeme} {ts : List Lexeme}
    {x : Failure} (h : Statement.parse limit t ts = .error x) :
    outcomes limit stop (t :: ts) = .error (x.error stop) :: outcomes limit stop x.resume := by
  rw [outcomes_cons, Statement.attempt_of_parse_eq_error stop h]

/-- Induction along the attempts at a stream: what holds of the lexemes at which the next attempt begins
holds of those at which this one does. -/
theorem attempts_induction (limit : Nat) {motive : List Lexeme → Prop} (nil : motive [])
    (ok : ∀ t ts s rest, Statement.parse limit t ts = .ok (s, rest) →
      Statement.dropSemicolon rest <:+ t :: ts → motive (Statement.dropSemicolon rest) →
        motive (t :: ts))
    (error : ∀ t ts x, Statement.parse limit t ts = .error x → x.resume <:+ t :: ts →
      motive x.resume → motive (t :: ts))
    (ts : List Lexeme) : motive ts := by
  fun_induction outcomes limit 0 ts with
  | case1 => exact nil
  | case2 t ts ih =>
    have hsuf := Statement.attempt_rest_suffix_cons limit 0 t ts
    cases hp : Statement.parse limit t ts with
    | ok r =>
      obtain ⟨s, rest⟩ := r
      rw [Statement.attempt_of_parse_eq_ok 0 hp] at ih hsuf
      exact ok t ts s rest hp hsuf ih
    | error x =>
      rw [Statement.attempt_of_parse_eq_error 0 hp] at ih hsuf
      exact error t ts x hp hsuf ih

/-- Where no attempt fails, the lexemes are a row that the statements are written with. -/
theorem writtenWith_of_outcomes_eq {limit stop : Nat} {ts : List Lexeme} {ss : List Statement}
    (h : outcomes limit stop ts = ss.map .ok) :
    WrittenWith ss (ts.map (·.token)) ∧ ∀ s ∈ ss, s.value.Legal limit := by
  fun_induction outcomes limit stop ts generalizing ss with
  | case1 =>
    obtain rfl := List.map_eq_nil_iff.1 h.symm
    exact ⟨.nil, List.forall_mem_nil _⟩
  | case2 t ts ih =>
    obtain ⟨s, ss, rfl, hs, hss⟩ := List.map_eq_cons_iff.1 h.symm
    obtain ⟨rest, hp, hr⟩ := Statement.exists_parse_of_outcome_eq_ok hs.symm
    obtain ⟨us, hus, hw, hl, hrest⟩ := Statement.parse_eq_ok_iff.1 hp
    obtain ⟨hws, hls⟩ := ih hss.symm
    refine ⟨?_, List.forall_mem_cons.2 ⟨hl, hls⟩⟩
    rw [hr] at hws
    rw [hus, List.map_append]
    -- The statement either takes the semicolon behind it or has none.
    cases rest with
    | nil => exact .bare hw (by simp) hws
    | cons m rest =>
      by_cases hm : m.kind = .semicolon
      · rw [Statement.dropSemicolon, if_pos hm] at hws
        exact .ended hw hm hws
      · rw [Statement.dropSemicolon, if_neg hm] at hws
        refine .bare hw (fun u hu => ?_) hws
        cases hu
        exact hrest m rfl

/-- No attempt fails on a row that legal statements are written with. -/
theorem outcomes_of_writtenWith {limit stop : Nat} {ts : List Lexeme} {ss : List Statement}
    (h : WrittenWith ss (ts.map (·.token))) (hl : ∀ s ∈ ss, s.value.Legal limit) :
    outcomes limit stop ts = ss.map .ok := by
  generalize hrow : ts.map (·.token) = row at h
  induction h generalizing ts with
  | nil =>
    obtain rfl := List.map_eq_nil_iff.1 hrow
    exact outcomes_nil limit stop
  | @bare s ss row₁ row₂ hs hrest hss ih =>
    obtain ⟨hs', hl'⟩ := List.forall_mem_cons.1 hl
    obtain ⟨us, vs, rfl, rfl, rfl⟩ := List.map_eq_append_iff.1 hrow
    cases us with
    | nil => exact absurd hs.head? (by simp)
    | cons t us =>
      have hvs : ∀ u ∈ vs.head?, u.kind.isBinary = false := by
        intro u hu
        exact hrest u.token (by rw [List.head?_map, Option.mem_def.1 hu]; rfl)
      have hdrop : Statement.dropSemicolon vs = vs := by
        refine dropSemicolon_of_head? fun u hu => ?_
        exact hss.head?_ne_semicolon hl' u.token (by rw [List.head?_map, Option.mem_def.1 hu]; rfl)
      have hp := Statement.parse_of_writtenWith hs hs' hvs
      rw [List.cons_append, outcomes_cons, Statement.attempt_of_parse_eq_ok stop hp, hdrop,
        ih hl' rfl, List.map_cons]
  | @ended s ss row₁ row₂ mark hs hm hss ih =>
    obtain ⟨hs', hl'⟩ := List.forall_mem_cons.1 hl
    obtain ⟨us, ws, rfl, rfl, hws⟩ := List.map_eq_append_iff.1 hrow
    obtain ⟨m, vs, rfl, rfl, rfl⟩ := List.map_eq_cons_iff.1 hws
    cases us with
    | nil => exact absurd hs.head? (by simp)
    | cons t us =>
      have hmk : m.kind = .semicolon := hm
      have hvs : ∀ u ∈ (m :: vs).head?, u.kind.isBinary = false := by
        intro u hu
        cases hu
        rw [hmk]
        rfl
      have hp := Statement.parse_of_writtenWith hs hs' hvs
      rw [List.cons_append, outcomes_cons, Statement.attempt_of_parse_eq_ok stop hp,
        Statement.dropSemicolon, if_pos hmk, ih hl' rfl, List.map_cons]

theorem outcomes_eq_map_ok_iff {limit stop : Nat} {ts : List Lexeme} {ss : List Statement} :
    outcomes limit stop ts = ss.map .ok ↔
      WrittenWith ss (ts.map (·.token)) ∧ ∀ s ∈ ss, s.value.Legal limit :=
  ⟨writtenWith_of_outcomes_eq, fun h => outcomes_of_writtenWith h.1 h.2⟩

/-- Each statement that an attempt gives is written with a part of the row, be there errors or not. -/
theorem exists_writtenWith_of_mem_outcomes {limit stop : Nat} {ts : List Lexeme} {s : Statement}
    (h : .ok s ∈ outcomes limit stop ts) :
    ∃ row, row <:+: ts.map (·.token) ∧ s.WrittenWith row ∧ s.value.Legal limit := by
  fun_induction outcomes limit stop ts with
  | case1 => cases h
  | case2 t ts ih =>
    rcases List.mem_cons.1 h with hs | h
    · obtain ⟨rest, hp, -⟩ := Statement.exists_parse_of_outcome_eq_ok hs.symm
      obtain ⟨us, hus, hw, hl, -⟩ := Statement.parse_eq_ok_iff.1 hp
      refine ⟨us.map (·.token), ?_, hw, hl⟩
      rw [hus, List.map_append]
      exact (List.prefix_append _ _).isInfix
    · obtain ⟨row, hrow, hs⟩ := ih h
      have hrest := Statement.attempt_rest_suffix_cons limit stop t ts
      exact ⟨row, hrow.trans (hrest.map _).isInfix, hs⟩

end Program

/-! ## Texts -/

theorem parse_eq_ofOutcomes (source : String) (settings : Settings) :
    parse source settings = .ofOutcomes
      (Program.outcomes settings.maxDepth source.utf8ByteSize (Cursor.ofString source).lexemes) := by
  rw [← Cursor.stop_ofString]
  rfl

/-- Each statement that a text parses to is written with a part of its tokens, be there errors or
not. -/
theorem exists_writtenWith_of_mem_statements {source : String} {settings : Settings} {s : Statement}
    (h : s ∈ (parse source settings).program.statements) :
    ∃ row, row <:+: (Cursor.ofString source).lexemes.map (·.token) ∧ s.WrittenWith row ∧
      s.value.Legal settings.maxDepth := by
  rw [parse_eq_ofOutcomes] at h
  exact Program.exists_writtenWith_of_mem_outcomes (Parse.mem_filterMap_statement?_iff.1 h)

theorem Parse.ofOutcomes_eq_iff {os : List Statement.Outcome} {p : Program} :
    ofOutcomes os = ⟨p, []⟩ ↔ os = p.statements.map .ok := by
  obtain ⟨ss⟩ := p
  simp only [ofOutcomes, Parse.mk.injEq, Program.mk.injEq]
  induction os generalizing ss with
  | nil => cases ss <;> simp
  | cons o os ih =>
    cases o with
    | ok s =>
      cases ss with
      | nil => simp [statement?]
      | cons s' ss =>
        simp only [List.filterMap_cons, statement?, error?, List.map_cons, List.cons.injEq,
          Except.ok.injEq, and_assoc, ih]
    | error e => cases ss <;> simp [error?]

/-- A text parses to `p` without an error exactly if its tokens are a row that the statements of `p`
are written with, and each value in `p` is made of the right tokens, grouped as precedence has it and
nested within the limit. -/
theorem parse_eq_iff_writtenWith (source : String) (settings : Settings) (p : Program) :
    parse source settings = ⟨p, []⟩ ↔
      Program.WrittenWith p.statements (tokens source).dropLast ∧
        ∀ s ∈ p.statements,
          s.value.WellFormed ∧ s.value.Grouped ∧ s.value.depth ≤ settings.maxDepth := by
  simp only [← Expression.legal_iff]
  rw [parse_eq_ofOutcomes, Parse.ofOutcomes_eq_iff, Program.outcomes_eq_map_ok_iff, tokens,
    Cursor.tokens, List.dropLast_concat]

end MonkeyLang
