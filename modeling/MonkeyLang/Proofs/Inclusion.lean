import MonkeyLang.Proofs.Acceptance
import MonkeyLang.Relocation

/-!
# A stream inside a longer one

What is read from a stream of lexemes hangs neither on where the lexemes stand nor, if a token follows
that no statement goes on with, on anything behind the stream.  Both are one fact about
`embed f us ts`, the stream `ts` with its spans replaced by `f` of them and `us` put behind it: where
`us` begins with a barrier, the reading of `embed f us ts` is that of `ts`, replaced and extended in the
same way (`Statement.parse_embed`).  The end of a stream is itself a barrier, so the empty `us` needs
nothing.

With nothing behind, recovery commutes with the replacement too, and the attempts on a stream that has
been moved are the attempts on the stream, moved (`Program.outcomes_mapSpan`).  So is the grammar: the
tokens of a tree that has been moved are the tokens of the tree, moved (`Program.WrittenWith.mapSpan`).
-/

namespace MonkeyLang

/-- Whether neither an expression nor a binding goes on with a token of this kind. -/
def TokenKind.isBarrier : TokenKind → Bool
  | operator _ => false
  | name => false
  | integer => false
  | _ => true

/-- The stream `ts`, its spans replaced by `f` of them, with `us` behind it. -/
def embed (f : Span → Span) (us ts : List Lexeme) : List Lexeme := ts.map (Lexeme.mapSpan f) ++ us

/-- A stream that is empty or begins with a barrier. -/
def Barred (us : List Lexeme) : Prop := ∀ u ∈ us.head?, u.kind.isBarrier

def Failure.embed (f : Span → Span) (us : List Lexeme) (x : Failure) : Failure :=
  ⟨x.problem, MonkeyLang.embed f us x.rest⟩

/-- The reading that gives `g` of what was read, in the longer stream. -/
def Reading.embed {α β : Type} (g : α → β) (f : Span → Span) (us : List Lexeme) :
    Reading α → Reading β
  | .ok (a, rest) => .ok (g a, MonkeyLang.embed f us rest)
  | .error x => .error (x.embed f us)

/-- The lexemes that a reading leaves, from the offending one on if it failed. -/
def Reading.left {α : Type} : Reading α → List Lexeme
  | .ok (_, rest) => rest
  | .error x => x.rest

theorem Reading.left_embed {α β : Type} (g : α → β) (f : Span → Span) (us : List Lexeme)
    (x : Reading α) : Reading.left (Reading.embed g f us x) = MonkeyLang.embed f us x.left := by
  cases x <;> rfl

/-- Readings one after the other lie in the longer stream if each does. -/
theorem Reading.embed_bind {α β γ δ : Type} {g : α → γ} {h : β → δ} {f : Span → Span}
    {us : List Lexeme} {x : Except Failure (α × List Lexeme)}
    {x' : Except Failure (γ × List Lexeme)} {k : α × List Lexeme → Except Failure (β × List Lexeme)}
    {k' : γ × List Lexeme → Except Failure (δ × List Lexeme)} (hx : x' = Reading.embed g f us x)
    (hk : ∀ a rest, k' (g a, MonkeyLang.embed f us rest) = Reading.embed h f us (k (a, rest))) :
    x'.bind k' = Reading.embed h f us (x.bind k) := by
  subst hx
  cases x with
  | ok r => exact hk r.1 r.2
  | error e => rfl

section Equations

variable (f : Span → Span) (us : List Lexeme)

@[simp] theorem embed_cons (t : Lexeme) (ts : List Lexeme) :
    embed f us (t :: ts) = t.mapSpan f :: embed f us ts := rfl

theorem embed_id (ts : List Lexeme) : embed id us ts = ts ++ us := by
  show ts.map id ++ us = ts ++ us
  rw [List.map_id]

theorem embed_nil_right (ts : List Lexeme) : embed f [] ts = ts.map (Lexeme.mapSpan f) :=
  List.append_nil _

@[simp] theorem Lexeme.mapSpan_kind (t : Lexeme) : (t.mapSpan f).kind = t.kind := rfl

@[simp] theorem Lexeme.mapSpan_token (t : Lexeme) : (t.mapSpan f).token = t.token.mapSpan f := rfl

@[simp] theorem Lexeme.mapSpan_startsLine (t : Lexeme) :
    (t.mapSpan f).startsLine = t.startsLine := rfl

end Equations

theorem barred_nil : Barred [] := by
  intro u hu
  cases hu

theorem barred_cons {u : Lexeme} {us : List Lexeme} : Barred (u :: us) ↔ u.kind.isBarrier := by
  refine ⟨fun h => h u rfl, fun h v hv => ?_⟩
  cases hv
  exact h

theorem TokenKind.precedence_of_isBarrier {kind : TokenKind} (h : kind.isBarrier) :
    kind.precedence = .lowest := by
  cases kind with
  | operator o => cases h
  | _ => rfl

theorem TokenKind.beginsOperand_of_isBarrier {kind : TokenKind} (h : kind.isBarrier) :
    kind.beginsOperand = false := by
  cases kind with
  | operator o | name | integer => cases h
  | _ => rfl

theorem Barred.haltsAt {us : List Lexeme} (h : Barred us) (p : Precedence) :
    Expression.HaltsAt p us := by
  intro u hu
  rw [TokenKind.precedence_of_isBarrier (h u hu)]
  exact Nat.zero_le _

/-! ## Expressions -/

namespace Expression

variable {f : Span → Span} {us : List Lexeme}

theorem readPrimary_of_barred (deeper : OperandReader) (hus : Barred us) :
    readPrimary deeper us = .error ⟨.noOperand, us⟩ := by
  cases us with
  | nil => rfl
  | cons u us =>
    exact readPrimary_cons_refused deeper
      (TokenKind.beginsOperand_of_isBarrier (barred_cons.1 hus)) us

/-- Where no operand can begin, the first lexeme is refused, by the limit if that is none at all. -/
theorem parse_of_barred (hus : Barred us) (limit : Nat) :
    parse limit us = .error ⟨if limit = 0 then .tooDeep 0 else .noOperand, us⟩ := by
  cases limit with
  | zero => rfl
  | succ n =>
    show readAbove _ _ us = _
    rw [readAbove, readPrimary_of_barred _ hus, if_neg (Nat.succ_ne_zero n)]

theorem HaltsAt.embed {p : Precedence} {ts : List Lexeme} (hus : Barred us) (h : HaltsAt p ts) :
    HaltsAt p (embed f us ts) := by
  cases ts with
  | nil => exact hus.haltsAt p
  | cons t ts =>
    intro u hu
    cases hu
    exact h t rfl

/-- A reader to which the place of a stream and what is behind it make no difference. -/
def OperandReader.Embeds (r : OperandReader) (f : Span → Span) (us : List Lexeme) : Prop :=
  ∀ p ts, r.read p (embed f us ts) = (r.read p ts).embed (mapSpan f) f us

theorem readPrimary_embed {deeper : OperandReader} (hus : Barred us) (hd : deeper.Embeds f us)
    (ts : List Lexeme) :
    readPrimary deeper (embed f us ts) = (readPrimary deeper ts).embed (mapSpan f) f us := by
  cases ts with
  | nil => exact readPrimary_of_barred deeper hus
  | cons t ts =>
    rw [embed_cons, readPrimary, readPrimary, Lexeme.mapSpan_kind, Lexeme.mapSpan_token,
      Token.mapSpan_literal]
    split
    · rfl
    · cases Numeral.read? t.token.literal.toList <;> rfl
    · split
      · rw [hd]
        cases deeper.read .unary ts <;> rfl
      · rfl

theorem extend_embed {deeper : OperandReader} (hus : Barred us) (hd : deeper.Embeds f us)
    (p : Precedence) (left : Expression) (ts : List Lexeme) :
    extend deeper p (left.mapSpan f) (embed f us ts) =
      (extend deeper p left ts).embed (mapSpan f) f us := by
  fun_induction extend deeper p left ts with
  | case1 left => exact extend_of_haltsAt deeper _ (hus.haltsAt p)
  | case2 left t ts hc right rest hr ih =>
    have hlt : p < (t.mapSpan f).kind.precedence := hc.1
    have hread : deeper.read (t.mapSpan f).kind.precedence (embed f us ts) =
        .ok (right.mapSpan f, embed f us rest) := by rw [hd, Lexeme.mapSpan_kind, hr]; rfl
    rw [embed_cons, extend_cons deeper _ hlt hread]
    exact ih
  | case3 left t ts hc x hr =>
    have hlt : p < (t.mapSpan f).kind.precedence := hc.1
    have hread : deeper.read (t.mapSpan f).kind.precedence (embed f us ts) =
        .error (x.embed f us) := by rw [hd, Lexeme.mapSpan_kind, hr]; rfl
    rw [embed_cons, extend_cons_error deeper _ hlt hread]
    rfl
  | case4 left t ts hc =>
    exact extend_of_haltsAt deeper _ ((haltsAt_cons hc ts).embed hus)

theorem reader_embed (hus : Barred us) (limit budget : Nat) :
    (reader limit budget).Embeds f us := by
  induction budget with
  | zero => exact fun _ _ => rfl
  | succ budget ih =>
    intro p ts
    show readAbove _ p (embed f us ts) = Reading.embed (mapSpan f) f us (readAbove _ p ts)
    rw [readAbove, readAbove, readPrimary_embed hus ih]
    cases readPrimary (reader limit budget) ts with
    | ok r => exact extend_embed hus ih p r.1 r.2
    | error x => rfl

theorem parse_embed (hus : Barred us) (limit : Nat) (ts : List Lexeme) :
    parse limit (embed f us ts) = (parse limit ts).embed (mapSpan f) f us :=
  reader_embed hus limit limit .lowest ts

end Expression

/-! ## Statements -/

theorem expect_embed {f : Span → Span} {us : List Lexeme} (hus : Barred us) {kind : TokenKind}
    (hk : kind.isBarrier = false) (ts : List Lexeme) :
    expect kind (embed f us ts) = (expect kind ts).embed (Token.mapSpan f) f us := by
  cases ts with
  | nil =>
    refine expect_eq_error_iff.2 ⟨rfl, fun u hu hkind => ?_⟩
    have hb := hus u hu
    rw [hkind, hk] at hb
    cases hb
  | cons t ts =>
    rw [embed_cons, expect, expect, Lexeme.mapSpan_kind]
    by_cases h : t.kind = kind
    · rw [if_pos h, if_pos h]
      rfl
    · rw [if_neg h, if_neg h]
      rfl

namespace Statement

variable {f : Span → Span} {us : List Lexeme}

theorem readBinding_embed (hus : Barred us) (limit : Nat) (token : Token) (ts : List Lexeme) :
    readBinding limit (token.mapSpan f) (embed f us ts) =
      Reading.embed (mapSpan f) f us (readBinding limit token ts) := by
  have hname : TokenKind.name.isBarrier = false := rfl
  have hsign : (TokenKind.operator .assign).isBarrier = false := rfl
  refine Reading.embed_bind (expect_embed hus hname ts) fun name ts => ?_
  refine Reading.embed_bind (expect_embed hus hsign ts) fun sign ts => ?_
  exact Reading.embed_bind (Expression.parse_embed hus limit ts) fun _ _ => rfl

theorem readReturning_embed (hus : Barred us) (limit : Nat) (token : Token) (ts : List Lexeme) :
    readReturning limit (token.mapSpan f) (embed f us ts) =
      Reading.embed (mapSpan f) f us (readReturning limit token ts) :=
  Reading.embed_bind (Expression.parse_embed hus limit ts) fun _ _ => rfl

theorem readExpression_embed (hus : Barred us) (limit : Nat) (token : Token) (ts : List Lexeme) :
    readExpression limit (token.mapSpan f) (embed f us ts) =
      Reading.embed (mapSpan f) f us (readExpression limit token ts) :=
  Reading.embed_bind (Expression.parse_embed hus limit ts) fun _ _ => rfl

theorem parse_embed (hus : Barred us) (limit : Nat) (t : Lexeme) (ts : List Lexeme) :
    parse limit (t.mapSpan f) (embed f us ts) = (parse limit t ts).embed (mapSpan f) f us := by
  rw [parse, parse, Lexeme.mapSpan_kind, Lexeme.mapSpan_token]
  split
  · exact readBinding_embed hus limit t.token ts
  · exact readReturning_embed hus limit t.token ts
  · exact readExpression_embed hus limit t.token (t :: ts)

/-- Nothing is read past a barrier. -/
theorem parse_append (hus : Barred us) (limit : Nat) (t : Lexeme) (ts : List Lexeme) :
    parse limit t (ts ++ us) = (parse limit t ts).embed id id us := by
  have h := parse_embed (f := id) hus limit t ts
  rw [embed_id] at h
  rw [show (id : Statement → Statement) = mapSpan id from funext fun s => (mapSpan_id s).symm]
  exact h

end Statement

/-! ## Attempts in another place -/

section Placement

variable (f : Span → Span)

theorem dropSemicolon_mapSpan (ts : List Lexeme) :
    Statement.dropSemicolon (ts.map (Lexeme.mapSpan f)) =
      (Statement.dropSemicolon ts).map (Lexeme.mapSpan f) := by
  cases ts with
  | nil => rfl
  | cons t ts =>
    simp only [List.map_cons, Statement.dropSemicolon, Lexeme.mapSpan_kind,
      apply_ite (List.map (Lexeme.mapSpan f))]
    rfl

theorem skipStatement_mapSpan (ts : List Lexeme) :
    skipStatement (ts.map (Lexeme.mapSpan f)) = (skipStatement ts).map (Lexeme.mapSpan f) := by
  induction ts with
  | nil => rfl
  | cons t ts ih =>
    simp only [List.map_cons, skipStatement, Lexeme.mapSpan_kind, Lexeme.mapSpan_startsLine,
      apply_ite (List.map (Lexeme.mapSpan f)), ih]

theorem skipRefused_mapSpan (ts : List Lexeme) :
    skipRefused (ts.map (Lexeme.mapSpan f)) = (skipRefused ts).map (Lexeme.mapSpan f) := by
  cases ts with
  | nil => rfl
  | cons t ts =>
    simp only [List.map_cons, skipRefused, Lexeme.mapSpan_kind, skipStatement_mapSpan,
      apply_ite (List.map (Lexeme.mapSpan f))]

theorem Failure.resume_embed (x : Failure) :
    (x.embed f []).resume = x.resume.map (Lexeme.mapSpan f) := by
  unfold resume Failure.embed
  rw [embed_nil_right]
  split
  · exact skipStatement_mapSpan f x.rest
  · exact skipRefused_mapSpan f x.rest

theorem Failure.error_embed {stop stop' : Nat} (hf : f (.point stop) = .point stop')
    (x : Failure) : (x.embed f []).error stop' = (x.error stop).mapSpan f := by
  obtain ⟨problem, rest⟩ := x
  cases rest with
  | nil =>
    show ParseError.mk problem (.endOfText stop') = ⟨problem, ⟨.endOfText, "", f (.point stop)⟩⟩
    rw [hf]
    rfl
  | cons t ts => rfl

/-- The outcome, its spans replaced by `f` of them. -/
def Statement.Outcome.mapSpan : Statement.Outcome → Statement.Outcome
  | .ok s => .ok (s.mapSpan f)
  | .error e => .error (e.mapSpan f)

theorem Statement.attempt_mapSpan {stop stop' : Nat} (hf : f (.point stop) = .point stop')
    (limit : Nat) (t : Lexeme) (ts : List Lexeme) :
    attempt limit stop' (t.mapSpan f) (ts.map (Lexeme.mapSpan f)) =
      ⟨(attempt limit stop t ts).outcome.mapSpan f,
        (attempt limit stop t ts).rest.map (Lexeme.mapSpan f)⟩ := by
  have h := parse_embed (f := f) barred_nil limit t ts
  rw [embed_nil_right] at h
  cases hp : parse limit t ts with
  | ok r =>
    obtain ⟨s, rest⟩ := r
    rw [hp] at h
    rw [attempt_of_parse_eq_ok stop hp, attempt_of_parse_eq_ok stop' h, embed_nil_right,
      dropSemicolon_mapSpan]
    rfl
  | error x =>
    rw [hp] at h
    rw [attempt_of_parse_eq_error stop hp, attempt_of_parse_eq_error stop' h,
      Failure.error_embed f hf, Failure.resume_embed]
    rfl

/-- The attempts on a stream that has been moved are the attempts on the stream, moved. -/
theorem Program.outcomes_mapSpan {stop stop' : Nat} (hf : f (.point stop) = .point stop')
    (limit : Nat) (ts : List Lexeme) :
    outcomes limit stop' (ts.map (Lexeme.mapSpan f)) =
      (outcomes limit stop ts).map (Statement.Outcome.mapSpan f) := by
  fun_induction outcomes limit stop ts with
  | case1 => rw [List.map_nil, outcomes_nil, List.map_nil]
  | case2 t ts ih =>
    rw [List.map_cons, outcomes_cons, Statement.attempt_mapSpan f hf, List.map_cons]
    exact congrArg _ ih

/-- What is picked from changed values is what was picked, changed. -/
theorem filterMap_map_of_comm {α β : Type} {p : α → Option β} {g : α → α} {h : β → β}
    (hp : ∀ a, p (g a) = (p a).map h) (as : List α) :
    (as.map g).filterMap p = (as.filterMap p).map h := by
  rw [List.filterMap_map, List.map_filterMap]
  exact congrArg (List.filterMap · as) (funext hp)

theorem Parse.filterMap_statement?_mapSpan (os : List Statement.Outcome) :
    (os.map (Statement.Outcome.mapSpan f)).filterMap statement? =
      (os.filterMap statement?).map (Statement.mapSpan f) :=
  filterMap_map_of_comm (fun o => by cases o <;> rfl) os

theorem Parse.filterMap_error?_mapSpan (os : List Statement.Outcome) :
    (os.map (Statement.Outcome.mapSpan f)).filterMap error? =
      (os.filterMap error?).map (ParseError.mapSpan f) :=
  filterMap_map_of_comm (fun o => by cases o <;> rfl) os

theorem Parse.ofOutcomes_map_mapSpan (os : List Statement.Outcome) :
    ofOutcomes (os.map (Statement.Outcome.mapSpan f)) = (ofOutcomes os).mapSpan f := by
  rw [ofOutcomes, filterMap_statement?_mapSpan, filterMap_error?_mapSpan]
  rfl

/-! ## The grammar in another place -/

namespace Expression

theorem tokens_mapSpan (e : Expression) : (e.mapSpan f).tokens = e.tokens.map (Token.mapSpan f) := by
  induction e with
  | name token | integer token value => rfl
  | unary operator operand ih => rw [mapSpan, tokens, tokens, ih, List.map_cons]
  | binary left operator right ihl ihr =>
    rw [mapSpan, tokens, tokens, ihl, ihr, List.map_append, List.map_cons]

@[simp] theorem depth_mapSpan (e : Expression) : (e.mapSpan f).depth = e.depth := by
  induction e <;> simp_all [mapSpan, depth]

theorem precedence_mapSpan (e : Expression) : (e.mapSpan f).precedence = e.precedence := by
  cases e <;> rfl

theorem wellFormed_mapSpan_iff {e : Expression} : (e.mapSpan f).WellFormed ↔ e.WellFormed := by
  induction e <;> simp_all [mapSpan, WellFormed]

theorem grouped_mapSpan_iff {e : Expression} : (e.mapSpan f).Grouped ↔ e.Grouped := by
  induction e <;> simp_all [mapSpan, Grouped, precedence_mapSpan]

theorem legal_mapSpan_iff {limit : Nat} {e : Expression} :
    (e.mapSpan f).Legal limit ↔ e.Legal limit := by
  rw [legal_iff, legal_iff, wellFormed_mapSpan_iff, grouped_mapSpan_iff, depth_mapSpan]

end Expression

theorem Statement.value_mapSpan (s : Statement) : (s.mapSpan f).value = s.value.mapSpan f := by
  cases s <;> rfl

theorem Statement.WrittenWith.mapSpan {s : Statement} {ts : List Token} (h : s.WrittenWith ts) :
    (s.mapSpan f).WrittenWith (ts.map (Token.mapSpan f)) := by
  cases h with
  | binding ht hn ha =>
    rw [List.map_cons, List.map_cons, List.map_cons, ← Expression.tokens_mapSpan]
    exact .binding ht hn ha
  | returning ht =>
    rw [List.map_cons, ← Expression.tokens_mapSpan]
    exact .returning ht
  | expression ht =>
    rw [← Expression.tokens_mapSpan]
    refine .expression ?_
    rw [Expression.tokens_mapSpan, List.head?_map, ht]
    rfl

theorem Program.WrittenWith.mapSpan {ss : List Statement} {ts : List Token}
    (h : WrittenWith ss ts) :
    WrittenWith (ss.map (Statement.mapSpan f)) (ts.map (Token.mapSpan f)) := by
  induction h with
  | nil => exact .nil
  | @bare s ss ts us hs hus _ ih =>
    rw [List.map_append, List.map_cons]
    refine .bare (hs.mapSpan f) (fun t ht => ?_) ih
    rw [List.head?_map] at ht
    obtain ⟨u, hu, rfl⟩ := Option.map_eq_some_iff.1 ht
    exact hus u hu
  | ended hs hm _ ih =>
    rw [List.map_append, List.map_cons, List.map_cons]
    exact .ended (hs.mapSpan f) hm ih

/-- Where the moved tokens are a row of the grammar, the stream parses to statements that, moved, are
the ones that the row is written with. -/
theorem Program.exists_ofOutcomes_of_mapSpan {stop stop' : Nat}
    (hf : f (.point stop) = .point stop') {limit : Nat} {ts : List Lexeme} {ss : List Statement}
    (h : WrittenWith ss ((ts.map (Lexeme.mapSpan f)).map (·.token)))
    (hl : ∀ s ∈ ss, s.value.Legal limit) :
    ∃ ss', Parse.ofOutcomes (outcomes limit stop ts) = ⟨⟨ss'⟩, []⟩ ∧
      ss'.map (Statement.mapSpan f) = ss := by
  have hread : outcomes limit stop' (ts.map (Lexeme.mapSpan f)) = ss.map .ok :=
    outcomes_of_writtenWith h hl
  rw [outcomes_mapSpan f hf] at hread
  have hparse := Parse.ofOutcomes_eq_iff (p := ⟨ss⟩).2 hread
  have hstatements := congrArg (·.program.statements) hparse
  have herrors := congrArg (·.errors) hparse
  simp only [Parse.ofOutcomes, Parse.filterMap_statement?_mapSpan,
    Parse.filterMap_error?_mapSpan] at hstatements herrors
  refine ⟨(outcomes limit stop ts).filterMap Parse.statement?, ?_, hstatements⟩
  rw [Parse.ofOutcomes, List.map_eq_nil_iff.1 herrors]

end Placement

end MonkeyLang
