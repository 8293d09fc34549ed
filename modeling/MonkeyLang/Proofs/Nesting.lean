import MonkeyLang.Proofs.Coverage

/-!
# The limit on nesting

A greater limit on nesting changes nothing up to the first error that the smaller one gives
(`parse_of_maxDepth_le`).

* Two readings of the same lexemes take the same steps until the one with fewer levels left has run out
  of them.  So each reading with more levels is the one with fewer, unless that one `RanOut`: this is
  `Reading.Deepens`, kept by every function from `readPrimary` up to `Statement.parse`.
* Two series of attempts at the same lexemes are then the same up to the first attempt that ran out
  (`Program.outcomes_deepens`), and what it ran out at tells which statements those were: the attempts go
  along the text (`Program.pairwise_before_outcomes`), so a statement ends before the token of a later
  error and never before the token of an earlier one.

What has been read within a limit is no deeper than the limit, by `Expression.Legal`; the left operand of
an operator is on the operator's own level, so a chain of operators costs no depth.
-/

namespace MonkeyLang

/-! ## Readings with more levels left -/

namespace Reading

variable {α β : Type}

/-- The reading failed because no level was left for an operand. -/
def RanOut (x : Except Failure α) : Prop := ∃ limit rest, x = .error ⟨.tooDeep limit, rest⟩

/-- The reading `x'` is `x`, unless `x` ran out of levels. -/
def Deepens (x x' : Except Failure α) : Prop := x' = x ∨ RanOut x

theorem Deepens.bind {x x' : Except Failure α} {f f' : α → Except Failure β} (hx : Deepens x x')
    (hf : ∀ a, Deepens (f a) (f' a)) : Deepens (x >>= f) (x' >>= f') := by
  rcases hx with rfl | ⟨limit, rest, rfl⟩
  · cases x' with
    | ok a => exact hf a
    | error y => exact Or.inl rfl
  · exact Or.inr ⟨limit, rest, rfl⟩

end Reading

namespace Expression

/-- The reader `r'` reads what `r` reads, unless `r` runs out of levels. -/
def OperandReader.Deepens (r r' : OperandReader) : Prop :=
  ∀ p ts, Reading.Deepens (r.read p ts) (r'.read p ts)

variable {deeper deeper' : OperandReader}

theorem readPrimary_deepens (hd : deeper.Deepens deeper') (ts : List Lexeme) :
    Reading.Deepens (readPrimary deeper ts) (readPrimary deeper' ts) := by
  cases ts with
  | nil => exact Or.inl rfl
  | cons t ts =>
    cases hb : t.kind.beginsOperand with
    | false =>
      rw [readPrimary_cons_refused deeper hb, readPrimary_cons_refused deeper' hb]
      exact Or.inl rfl
    | true =>
      rcases TokenKind.beginsOperand_iff.1 hb with hk | hk | hu
      · rw [readPrimary_name deeper hk, readPrimary_name deeper' hk]
        exact Or.inl rfl
      · simp only [readPrimary, hk]
        exact Or.inl rfl
      · rw [readPrimary_cons_unary deeper hu, readPrimary_cons_unary deeper' hu]
        rcases hd .unary ts with h | ⟨limit, rest, h⟩
        · rw [h]
          exact Or.inl rfl
        · rw [h]
          exact Or.inr ⟨limit, rest, rfl⟩

theorem extend_deepens (hd : deeper.Deepens deeper') (p : Precedence) (left : Expression)
    (ts : List Lexeme) : Reading.Deepens (extend deeper p left ts) (extend deeper' p left ts) := by
  fun_induction extend deeper p left ts with
  | case1 left => exact Or.inl (extend_of_haltsAt deeper' left (haltsAt_nil p))
  | case2 left t ts hc right rest hr ih =>
    rcases hd t.kind.precedence ts with h | ⟨limit, rest', h⟩
    · rw [extend_cons deeper' left hc.1 (h.trans hr)]
      exact ih
    · cases hr.symm.trans h
  | case3 left t ts hc x hr =>
    rcases hd t.kind.precedence ts with h | ⟨limit, rest', h⟩
    · exact Or.inl (extend_cons_error deeper' left hc.1 (h.trans hr))
    · cases hr.symm.trans h
      exact Or.inr ⟨limit, rest', rfl⟩
  | case4 left t ts hc => exact Or.inl (extend_of_haltsAt deeper' left (haltsAt_cons hc ts))

/-- More levels make no difference to a reader that does not run out of the levels that it has. -/
theorem reader_deepens (limit limit' : Nat) {budget budget' : Nat} (h : budget ≤ budget') :
    (reader limit budget).Deepens (reader limit' budget') := by
  induction budget generalizing budget' with
  | zero =>
    intro p ts
    exact Or.inr ⟨limit, ts, rfl⟩
  | succ budget ih =>
    obtain ⟨budget', rfl⟩ := Nat.exists_eq_add_of_le' (Nat.le_trans (Nat.le_add_left 1 budget) h)
    have hd := ih (Nat.le_of_succ_le_succ h)
    intro p ts
    show Reading.Deepens (readAbove (reader limit budget) p ts)
      (readAbove (reader limit' budget') p ts)
    unfold readAbove
    rcases readPrimary_deepens hd ts with hprimary | ⟨_, rest, hprimary⟩
    · rw [hprimary]
      cases readPrimary (reader limit budget) ts with
      | ok r => exact extend_deepens hd p r.1 r.2
      | error x => exact Or.inl rfl
    · rw [hprimary]
      exact Or.inr ⟨_, rest, rfl⟩

theorem parse_deepens {limit limit' : Nat} (h : limit ≤ limit') (ts : List Lexeme) :
    Reading.Deepens (parse limit ts) (parse limit' ts) :=
  reader_deepens limit limit' h .lowest ts

end Expression

theorem Statement.parse_deepens {limit limit' : Nat} (h : limit ≤ limit') (t : Lexeme)
    (ts : List Lexeme) : Reading.Deepens (parse limit t ts) (parse limit' t ts) := by
  unfold parse
  split
  · refine Reading.Deepens.bind (Or.inl rfl) ?_
    rintro ⟨name, us⟩
    refine Reading.Deepens.bind (Or.inl rfl) ?_
    rintro ⟨sign, vs⟩
    exact (Expression.parse_deepens h vs).bind fun _ => Or.inl rfl
  · exact (Expression.parse_deepens h ts).bind fun _ => Or.inl rfl
  · exact (Expression.parse_deepens h (t :: ts)).bind fun _ => Or.inl rfl

/-! ## Attempts with a greater limit -/

/-- The attempts `os'` are `os`, up to the first attempt of `os` that failed for its limit. -/
inductive SameUpToLimit : List Statement.Outcome → List Statement.Outcome → Prop
  | nil : SameUpToLimit [] []
  | ok {s : Statement} {os os' : List Statement.Outcome} : SameUpToLimit os os' →
      SameUpToLimit (.ok s :: os) (.ok s :: os')
  | malformed {e : ParseError} {os os' : List Statement.Outcome} : e.kind ≠ .limitExceeded →
      SameUpToLimit os os' → SameUpToLimit (.error e :: os) (.error e :: os')
  | exceeded {e : ParseError} {os os' : List Statement.Outcome} : e.kind = .limitExceeded →
      SameUpToLimit (.error e :: os) os'

/-- The attempts with a greater limit are those with a smaller one, up to the first that failed for
it. -/
theorem Program.outcomes_deepens {limit limit' : Nat} (h : limit ≤ limit') (stop : Nat)
    (ts : List Lexeme) : SameUpToLimit (outcomes limit stop ts) (outcomes limit' stop ts) := by
  induction ts using attempts_induction limit with
  | nil =>
    rw [outcomes_nil, outcomes_nil]
    exact .nil
  | ok t ts s rest hp hrest ih =>
    rcases Statement.parse_deepens h t ts with hp' | ⟨_, rest', hp'⟩
    · rw [outcomes_cons_of_ok stop hp, outcomes_cons_of_ok stop (hp'.trans hp)]
      exact .ok ih
    · cases hp.symm.trans hp'
  | error t ts x hp hrest ih =>
    rw [outcomes_cons_of_error stop hp]
    by_cases hkind : (x.error stop).kind = .limitExceeded
    · exact .exceeded hkind
    · rcases Statement.parse_deepens h t ts with hp' | ⟨_, rest', hp'⟩
      · rw [outcomes_cons_of_error stop (hp'.trans hp)]
        exact .malformed hkind ih
      · cases hp.symm.trans hp'
        exact absurd rfl hkind

/-! ## Attempts go along the text -/

/-- A statement ends before the token of a later error, and not before the token of an earlier one. -/
def Statement.Outcome.Before : Statement.Outcome → Statement.Outcome → Prop
  | .ok s, .error e => s.span.stop ≤ e.token.span.start
  | .error e, .ok s => e.token.span.start < s.span.stop
  | _, _ => True

/-- The span of a statement ends with one of the tokens that it is written with. -/
theorem Statement.WrittenWith.exists_stop_eq {s : Statement} {row : List Token}
    (h : s.WrittenWith row) (ho : InOrder row) : ∃ b ∈ row, s.span.stop = b.span.stop := by
  obtain ⟨a, b, -, hb, hspan⟩ := h.span_frames ho
  exact ⟨b, List.mem_of_getLast? hb, by rw [hspan]⟩

/-- Of tokens in order, none ends before the first begins. -/
theorem InOrder.start_lt_stop_of_mem {t u : Token} {ts : List Token} (h : InOrder (t :: ts))
    (hu : u ∈ t :: ts) : t.span.start < u.span.stop := by
  have ht := h.start_lt_stop t List.mem_cons_self
  rcases List.mem_cons.1 hu with rfl | hmem
  · exact ht
  · have hle := (List.pairwise_cons.1 h.pairwise).1 u hmem
    have hlt := h.start_lt_stop u hu
    omega

namespace Program

variable {limit stop : Nat} {t : Lexeme} {ts : List Lexeme}

/-- The token of an error behind a statement is behind the statement. -/
theorem stop_le_start_of_parse_eq_ok {s : Statement} {rest us : List Lexeme} {e : ParseError}
    (hp : Statement.parse limit t ts = .ok (s, rest)) (ho : InOrder ((t :: ts).map Lexeme.token))
    (hstop : ∀ u ∈ t :: ts, u.token.span.stop ≤ stop) (hus : us <:+ rest)
    (he : .error e ∈ outcomes limit stop us) : s.span.stop ≤ e.token.span.start := by
  obtain ⟨row, hrow, hw, -, -⟩ := Statement.parse_eq_ok_iff.1 hp
  rw [hrow] at hstop
  rw [hrow, List.map_append] at ho
  obtain ⟨b, hb, hspan⟩ := hw.exists_stop_eq (ho.sublist (List.sublist_append_left _ _))
  rw [hspan]
  rcases List.mem_append.1 (token_mem_of_error_mem he) with hmem | hmem
  · have hrest : e.token ∈ rest.map Lexeme.token := (hus.map Lexeme.token).subset hmem
    exact (List.pairwise_append.1 ho.pairwise).2.2 b hb e.token hrest
  · rw [List.mem_singleton.1 hmem]
    obtain ⟨u, hu, rfl⟩ := List.mem_map.1 hb
    exact hstop u (List.mem_append_left rest hu)

/-- A statement behind an error does not end before the token of the error. -/
theorem start_lt_stop_of_parse_eq_error {s : Statement} {x : Failure}
    (hp : Statement.parse limit t ts = .error x) (ho : InOrder ((t :: ts).map Lexeme.token))
    (hs : .ok s ∈ outcomes limit stop x.resume) :
    (x.error stop).token.span.start < s.span.stop := by
  obtain ⟨row, hrow, hw, -⟩ := exists_writtenWith_of_mem_outcomes hs
  have hrest : row <:+: x.rest.map Lexeme.token :=
    hrow.trans (x.resume_suffix.map Lexeme.token).isInfix
  have horder : InOrder (x.rest.map Lexeme.token) :=
    ho.sublist ((Statement.rest_suffix_of_parse_eq_error hp).sublist.map Lexeme.token)
  obtain ⟨b, hb, hspan⟩ := hw.exists_stop_eq (horder.sublist hrest.sublist)
  rw [hspan]
  obtain ⟨problem, us⟩ := x
  cases us with
  | nil => cases hrest.subset hb
  | cons u us => exact horder.start_lt_stop_of_mem (hrest.subset hb)

theorem pairwise_before_outcomes (limit : Nat) (ho : InOrder (ts.map Lexeme.token))
    (hstop : ∀ t ∈ ts, t.token.span.stop ≤ stop) :
    (outcomes limit stop ts).Pairwise Statement.Outcome.Before := by
  induction ts using attempts_induction limit with
  | nil =>
    rw [outcomes_nil]
    exact .nil
  | ok t ts s rest hp hrest ih =>
    have htail := ih (ho.sublist (hrest.sublist.map Lexeme.token))
      fun u hu => hstop u (hrest.subset hu)
    rw [outcomes_cons_of_ok stop hp]
    refine List.pairwise_cons.2 ⟨fun o hmem => ?_, htail⟩
    cases o with
    | ok s' => trivial
    | error e =>
      exact stop_le_start_of_parse_eq_ok hp ho hstop (Statement.dropSemicolon_suffix rest) hmem
  | error t ts x hp hrest ih =>
    have htail := ih (ho.sublist (hrest.sublist.map Lexeme.token))
      fun u hu => hstop u (hrest.subset hu)
    rw [outcomes_cons_of_error stop hp]
    refine List.pairwise_cons.2 ⟨fun o hmem => ?_, htail⟩
    cases o with
    | ok s => exact start_lt_stop_of_parse_eq_error hp ho hmem
    | error e => trivial

end Program

/-! ## What is the same -/

namespace SameUpToLimit

variable {os os' : List Statement.Outcome}

theorem eq_of_forall_kind_ne (h : SameUpToLimit os os')
    (hos : ∀ e ∈ os.filterMap Parse.error?, e.kind ≠ .limitExceeded) : os' = os := by
  induction h with
  | nil => rfl
  | ok _ ih => rw [ih hos]
  | malformed _ _ ih => rw [ih fun e he => hos e (List.mem_cons_of_mem _ he)]
  | exceeded hkind => exact absurd hkind (hos _ List.mem_cons_self)

/-- The errors before the first that is for the limit are the same. -/
theorem takeWhile_errors_prefix (h : SameUpToLimit os os') :
    (os.filterMap Parse.error?).takeWhile (·.kind ≠ .limitExceeded) <+:
      os'.filterMap Parse.error? := by
  induction h with
  | nil => exact List.prefix_rfl
  | ok _ ih => exact ih
  | @malformed e os os' hkind _ ih =>
    show (e :: os.filterMap Parse.error?).takeWhile _ <+: e :: os'.filterMap Parse.error?
    rw [List.takeWhile_cons_of_pos (by simp [hkind])]
    exact (List.prefix_cons_inj e).2 ih
  | @exceeded e os os' hkind =>
    show (e :: os.filterMap Parse.error?).takeWhile _ <+: os'.filterMap Parse.error?
    rw [List.takeWhile_cons_of_neg (by simp [hkind])]
    exact List.nil_prefix

/-- The statements that end before the first error that is for the limit are the same. -/
theorem filter_statements_prefix (h : SameUpToLimit os os')
    (hos : os.Pairwise Statement.Outcome.Before) {x : ParseError}
    (hx : (os.filterMap Parse.error?).find? (·.kind = .limitExceeded) = some x) :
    (os.filterMap Parse.statement?).filter (·.span.stop ≤ x.token.span.start) <+:
      os'.filterMap Parse.statement? := by
  induction h with
  | nil => cases hx
  | @ok s os os' _ ih =>
    obtain ⟨hbefore, htail⟩ := List.pairwise_cons.1 hos
    have hx' : (os.filterMap Parse.error?).find? (·.kind = .limitExceeded) = some x := hx
    have hs : s.span.stop ≤ x.token.span.start :=
      hbefore (.error x) (Parse.mem_filterMap_error?_iff.1 (List.mem_of_find?_eq_some hx'))
    show (s :: os.filterMap Parse.statement?).filter _ <+: s :: os'.filterMap Parse.statement?
    rw [List.filter_cons_of_pos (by simp [hs])]
    exact (List.prefix_cons_inj s).2 (ih htail hx')
  | @malformed e os os' hkind _ ih =>
    have hx' : (e :: os.filterMap Parse.error?).find? (·.kind = .limitExceeded) = some x := hx
    rw [List.find?_cons_of_neg (by simp [hkind])] at hx'
    exact ih (List.pairwise_cons.1 hos).2 hx'
  | @exceeded e os os' hkind =>
    have hx' : (e :: os.filterMap Parse.error?).find? (·.kind = .limitExceeded) = some x := hx
    rw [List.find?_cons_of_pos (by simp [hkind])] at hx'
    obtain rfl := Option.some.inj hx'
    have hnone : (os.filterMap Parse.statement?).filter (·.span.stop ≤ e.token.span.start) = [] := by
      refine List.filter_eq_nil_iff.2 fun s hs => ?_
      have hlt : e.token.span.start < s.span.stop :=
        (List.pairwise_cons.1 hos).1 (.ok s) (Parse.mem_filterMap_statement?_iff.1 hs)
      simpa using hlt
    show (os.filterMap Parse.statement?).filter _ <+: os'.filterMap Parse.statement?
    rw [hnone]
    exact List.nil_prefix

end SameUpToLimit

/-! ## Texts -/

/-- **The limit on nesting changes nothing until it is exceeded.**  A text without an error for the limit
parses the same with any greater limit.  With such errors, what comes before the first of them is the
same: the errors before it, and the statements that end before its token.  What a text parses to is
nested within the limit. -/
theorem parse_of_maxDepth_le (source : String) {settings settings' : Settings}
    (h : settings.maxDepth ≤ settings'.maxDepth) :
    ((∀ e ∈ (parse source settings).errors, e.kind ≠ .limitExceeded) →
      parse source settings' = parse source settings) ∧
    (∀ x, (parse source settings).errors.find? (·.kind = .limitExceeded) = some x →
      (parse source settings).errors.takeWhile (·.kind ≠ .limitExceeded) <+:
          (parse source settings').errors ∧
        (parse source settings).program.statements.filter (·.span.stop ≤ x.token.span.start) <+:
          (parse source settings').program.statements) ∧
    ∀ s ∈ (parse source settings).program.statements, s.value.depth ≤ settings.maxDepth := by
  have hsame := Program.outcomes_deepens h source.utf8ByteSize (Cursor.ofString source).lexemes
  have hbefore := Program.pairwise_before_outcomes settings.maxDepth
    (Cursor.ofString source).inOrder_lexemes (fun t ht => Cursor.stop_le_of_mem_lexemes ht)
  rw [Cursor.stop_ofString] at hbefore
  refine ⟨?_, ?_, ?_⟩
  · rw [parse_eq_ofOutcomes, parse_eq_ofOutcomes]
    intro hkinds
    rw [hsame.eq_of_forall_kind_ne hkinds]
  · rw [parse_eq_ofOutcomes, parse_eq_ofOutcomes]
    intro x hx
    exact ⟨hsame.takeWhile_errors_prefix, hsame.filter_statements_prefix hbefore hx⟩
  · intro s hs
    obtain ⟨row, -, -, hl⟩ := exists_writtenWith_of_mem_statements hs
    exact hl.depth_le

/-- In `2 + -b` the operand `-b` is on the second level and `b` on the third.  With one level the error is
at `-`, and the error and the statement before it are those of two levels; three levels are enough. -/
theorem parse_of_maxDepth_le_operand :
    let source := "let a = 1; @; 2 + -b; c"
    let x : ParseError := ⟨.tooDeep 1, .ofText (.operator .minus) "-" 18⟩
    (parse source ⟨1⟩).errors.find? (·.kind = .limitExceeded) = some x ∧
    (parse source ⟨1⟩).errors.takeWhile (·.kind ≠ .limitExceeded) <+: (parse source ⟨2⟩).errors ∧
    (parse source ⟨1⟩).program.statements.filter (·.span.stop ≤ x.token.span.start) <+:
      (parse source ⟨2⟩).program.statements ∧
    (∀ e ∈ (parse source ⟨3⟩).errors, e.kind ≠ .limitExceeded) ∧
    parse source ⟨200⟩ = parse source ⟨3⟩ := by
  intro source x
  have hx : (parse source ⟨1⟩).errors.find? (·.kind = .limitExceeded) = some x := by decide +kernel
  have hkinds : ∀ e ∈ (parse source ⟨3⟩).errors, e.kind ≠ .limitExceeded := by decide +kernel
  have hle : (⟨1⟩ : Settings).maxDepth ≤ (⟨2⟩ : Settings).maxDepth := by decide
  have hle' : (⟨3⟩ : Settings).maxDepth ≤ (⟨200⟩ : Settings).maxDepth := by decide
  obtain ⟨herrors, hstatements⟩ := (parse_of_maxDepth_le source hle).2.1 x hx
  exact ⟨hx, herrors, hstatements, hkinds, (parse_of_maxDepth_le source hle').1 hkinds⟩

end MonkeyLang
