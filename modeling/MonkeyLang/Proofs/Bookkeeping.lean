import MonkeyLang.Check
import MonkeyLang.Proofs.Coverage
import MonkeyLang.Proofs.Session

/-!
# One error for each statement that is dropped

A session takes one turn after the other until its text is at an end.  In each turn it either gets a
statement and notes no error, or it drops the statement and notes one error, behind those so far
(`Session.Tallies`).  So the statements and the errors of a parse are together as many as its turns,
a text is accepted exactly if no turn drops its statement, and the errors are in the order of the
text (`parse_tallies`).

What a session has before it are the outcomes of the attempts at its lexemes (`Session.outcomes`),
and a turn takes the first of them off (`Session.next_takes_outcome`).  All that is said of the
`n`-th turn follows from this by induction on `n`.
-/

namespace MonkeyLang

/-- What is found in a list up to one place more. -/
theorem filterMap_take_succ {α β : Type} (f : α → Option β) (l : List α) (n : Nat) :
    (l.take (n + 1)).filterMap f = (l.take n).filterMap f ++ (l[n]?.bind f).toList := by
  rw [List.take_add_one, List.filterMap_append]
  cases l[n]? with
  | none => rfl
  | some a => cases h : f a <;> simp [h]

namespace Session

/-- A try at a statement gives one and leaves the errors as they are, or gives none and puts one
error behind them.  Either way it ends on no level and changes no setting. -/
def Tallies (s : Session) : Prop :=
  ∃ x s', statement.run s = (x, s') ∧ s'.depth = 0 ∧ s'.settings = s.settings ∧
    (x.isSome ∧ s'.errors = s.errors ∨ x = none ∧ ∃ e, s'.errors = s.errors ++ [e])

/-- No turn of the session over a text drops its statement. -/
def DropsNone (source : String) (settings : Settings) : Prop :=
  ∀ n, (atTurn source settings n).rest ≠ [] →
    (statement.run (atTurn source settings n)).1.isSome

/-- The outcomes of the attempts at what is left. -/
def outcomes (s : Session) : List Statement.Outcome :=
  Program.outcomes s.settings.maxDepth s.stop s.rest

/-! ## One turn -/

variable {s : Session}

theorem tallies_of_rest_ne_nil (hdepth : s.depth = 0) (hrest : s.rest ≠ []) : s.Tallies := by
  obtain ⟨t, ts, hts⟩ := List.exists_cons_of_ne_nil hrest
  have hrun := statement_run hdepth hts
  cases hp : Statement.parse s.settings.maxDepth t ts with
  | ok q =>
    rw [hp] at hrun
    exact ⟨_, _, hrun, hdepth, rfl, Or.inl ⟨rfl, rfl⟩⟩
  | error x =>
    rw [hp] at hrun
    exact ⟨_, _, hrun, hdepth, rfl, Or.inr ⟨rfl, x.error s.stop, rfl⟩⟩

theorem next_of_rest_eq_nil (hrest : s.rest = []) : s.next = s := by
  rw [next, hrest]

theorem outcomes_of_rest_eq_nil (hrest : s.rest = []) : s.outcomes = [] := by
  rw [outcomes, hrest, Program.outcomes_nil]

theorem outcomes_eq_nil_iff : s.outcomes = [] ↔ s.rest = [] := by
  constructor
  · intro h
    cases hrest : s.rest with
    | nil => rfl
    | cons t ts =>
      rw [outcomes, hrest, Program.outcomes_cons] at h
      cases h
  · exact outcomes_of_rest_eq_nil

/-- **A turn takes the first outcome off:** it gives the statement of that outcome or notes its
error. -/
theorem next_takes_outcome (hdepth : s.depth = 0) :
    (s.next.depth = 0 ∧ s.next.settings = s.settings) ∧
      s.next.outcomes = s.outcomes.tail ∧
      s.next.errors = s.errors ++ (s.outcomes.head?.bind Parse.error?).toList ∧
      (statement.run s).1 = s.outcomes.head?.bind Parse.statement? := by
  cases hrest : s.rest with
  | nil =>
    rw [next_of_rest_eq_nil hrest, outcomes_of_rest_eq_nil hrest]
    refine ⟨⟨hdepth, rfl⟩, rfl, (List.append_nil _).symm, ?_⟩
    rw [statement, run_front_bind, hrest]
    rfl
  | cons t ts =>
    have hout : s.outcomes = (Statement.attempt s.settings.maxDepth s.stop t ts).outcome ::
        Program.outcomes s.settings.maxDepth s.stop
          (Statement.attempt s.settings.maxDepth s.stop t ts).rest := by
      rw [outcomes, hrest, Program.outcomes_cons]
    rw [next_eq hdepth hrest, hout]
    exact ⟨⟨hdepth, rfl⟩, rfl, rfl, statement_run_fst hdepth hrest⟩

/-! ## All turns -/

theorem iterate_next_depth (hdepth : s.depth = 0) (n : Nat) :
    (next^[n] s).depth = 0 ∧ (next^[n] s).settings = s.settings := by
  induction n with
  | zero => exact ⟨hdepth, rfl⟩
  | succ n ih =>
    obtain ⟨hd, hs⟩ := ih
    obtain ⟨⟨hd', hs'⟩, -⟩ := next_takes_outcome hd
    rw [Function.iterate_succ_apply']
    exact ⟨hd', hs'.trans hs⟩

theorem iterate_next_outcomes (hdepth : s.depth = 0) (n : Nat) :
    (next^[n] s).outcomes = s.outcomes.drop n := by
  induction n with
  | zero => rfl
  | succ n ih =>
    obtain ⟨-, hout, -⟩ := next_takes_outcome (iterate_next_depth hdepth n).1
    rw [Function.iterate_succ_apply', hout, ih, List.tail_drop]

/-- After `n` turns the errors of the first `n` outcomes are noted. -/
theorem iterate_next_errors (hdepth : s.depth = 0) (n : Nat) :
    (next^[n] s).errors = s.errors ++ (s.outcomes.take n).filterMap Parse.error? := by
  induction n with
  | zero => exact (List.append_nil _).symm
  | succ n ih =>
    obtain ⟨-, -, herrors, -⟩ := next_takes_outcome (iterate_next_depth hdepth n).1
    rw [Function.iterate_succ_apply', herrors, ih, iterate_next_outcomes hdepth, List.head?_drop,
      List.append_assoc, filterMap_take_succ]

theorem iterate_next_statement (hdepth : s.depth = 0) (n : Nat) :
    (statement.run (next^[n] s)).1 = s.outcomes[n]?.bind Parse.statement? := by
  obtain ⟨-, -, -, hrun⟩ := next_takes_outcome (iterate_next_depth hdepth n).1
  rw [hrun, iterate_next_outcomes hdepth, List.head?_drop]

theorem iterate_next_rest_eq_nil_iff (hdepth : s.depth = 0) (n : Nat) :
    (next^[n] s).rest = [] ↔ s.outcomes.length ≤ n := by
  rw [← outcomes_eq_nil_iff, iterate_next_outcomes hdepth, List.drop_eq_nil_iff]

/-- The first `n` turns give the statements of the first `n` outcomes. -/
theorem filterMap_iterate_next (hdepth : s.depth = 0) (n : Nat) :
    (List.range n).filterMap (fun m => (statement.run (next^[m] s)).1) =
      (s.outcomes.take n).filterMap Parse.statement? := by
  induction n with
  | zero => rfl
  | succ n ih =>
    rw [List.range_succ, List.filterMap_append, ih, filterMap_take_succ, List.filterMap_cons,
      iterate_next_statement hdepth]
    cases s.outcomes[n]?.bind Parse.statement? <;> rfl

end Session

/-! ## The order of the errors -/

/-- The tokens begin one behind the other, with the end of the text behind them all. -/
theorem Cursor.pairwise_start_tokens (c : Cursor) :
    c.tokens.Pairwise fun t u => t.span.start ≤ u.span.start := by
  refine c.pairwise_tokens.imp_of_mem ?_
  intro t u ht _ htu
  refine Nat.le_trans ?_ htu
  rcases List.mem_append.1 ht with ht | ht
  · exact Nat.le_of_lt (c.inOrder_lexemes.start_lt_stop t ht)
  · rw [List.mem_singleton.1 ht]
    exact Nat.le_refl _

/-- Where the tokens begin one behind the other, so do those at which the attempts fail: what is
left for the attempts after a failure begins at its token or behind it. -/
theorem Program.pairwise_start_errors {limit stop : Nat} {ts : List Lexeme}
    (h : (ts.map Lexeme.token ++ [Token.endOfText stop]).Pairwise
      fun t u => t.span.start ≤ u.span.start) :
    ((outcomes limit stop ts).filterMap Parse.error?).Pairwise
      fun d e => d.token.span.start ≤ e.token.span.start := by
  have hsuffix {us vs : List Lexeme} (hs : us <:+ vs) :
      us.map Lexeme.token ++ [Token.endOfText stop] <:+
        vs.map Lexeme.token ++ [Token.endOfText stop] :=
    List.suffix_append_self_iff.2 (hs.map Lexeme.token)
  induction ts using attempts_induction limit with
  | nil =>
    rw [outcomes_nil]
    exact .nil
  | ok t ts s rest hp hrest ih =>
    rw [outcomes_cons_of_ok stop hp]
    exact ih (h.sublist (hsuffix hrest).sublist)
  | error t ts x hp hrest ih =>
    have hx := Statement.rest_suffix_of_parse_eq_error hp
    have hleft := h.sublist (hsuffix hx).sublist
    obtain ⟨post, hpost⟩ := List.head?_eq_some_iff.1 (x.head?_error stop)
    rw [outcomes_cons_of_error stop hp]
    refine List.pairwise_cons.2 ⟨?_, ih (h.sublist (hsuffix hrest).sublist)⟩
    intro e he
    have hresume := token_mem_of_error_mem (Parse.mem_filterMap_error?_iff.1 he)
    have hmem := (hsuffix x.resume_suffix).subset hresume
    rw [hpost] at hleft hmem
    rcases List.mem_cons.1 hmem with heq | hmem
    · rw [heq]
    · exact (List.pairwise_cons.1 hleft).1 e.token hmem

/-! ## Acceptance -/

theorem Parse.error?_eq_none_iff {o : Statement.Outcome} :
    error? o = none ↔ (statement? o).isSome := by
  cases o <;> simp [error?, statement?]

theorem Parse.exists_result_eq_ok_iff (p : Parse) : (∃ q, p.result = .ok q) ↔ p.isOk := by
  rw [result]
  split
  · rename_i h
    exact iff_of_true ⟨p.program, rfl⟩ h
  · rename_i h
    refine iff_of_false ?_ h
    rintro ⟨q, hq⟩
    cases hq

theorem exists_check_eq_ok_iff (file source : String) :
    (∃ p, check file source = .ok p) ↔ (parse source).isOk := by
  rw [← Parse.exists_result_eq_ok_iff, check]
  cases (parse source).result <;> simp

theorem errors_of_check_eq_error {file source : String} {r : Rejection}
    (h : check file source = .error r) : r.errors = (parse source).errors := by
  rw [check, Parse.result] at h
  by_cases hok : (parse source).isOk
  · rw [if_pos hok] at h
    cases h
  · rw [if_neg hok] at h
    cases h
    rfl

/-- The outcomes that a session over a text has before it are those that the text parses to. -/
theorem parse_eq_ofOutcomes_start (source : String) (settings : Settings) :
    parse source settings = .ofOutcomes (Session.start source settings).outcomes := rfl

theorem Session.dropsNone_iff (source : String) (settings : Settings) :
    DropsNone source settings ↔ (parse source settings).isOk := by
  have hdepth : (start source settings).depth = 0 := rfl
  rw [parse_eq_ofOutcomes_start, Parse.isOk, List.isEmpty_iff, Parse.ofOutcomes,
    List.filterMap_eq_nil_iff]
  constructor
  · intro h o ho
    obtain ⟨n, hn, rfl⟩ := List.getElem_of_mem ho
    have hrest : (atTurn source settings n).rest ≠ [] := by
      rw [Ne, atTurn, iterate_next_rest_eq_nil_iff hdepth]
      exact Nat.not_le.2 hn
    have hsome := h n hrest
    rw [atTurn, iterate_next_statement hdepth, List.getElem?_eq_getElem hn] at hsome
    exact Parse.error?_eq_none_iff.2 hsome
  · intro h n hrest
    rw [Ne, atTurn, iterate_next_rest_eq_nil_iff hdepth, Nat.not_le] at hrest
    rw [atTurn, iterate_next_statement hdepth, List.getElem?_eq_getElem hrest]
    exact Parse.error?_eq_none_iff.1 (h _ (List.getElem_mem hrest))

theorem pairwise_start_errors (source : String) (settings : Settings) :
    ((parse source settings).errors.map fun e => e.token.span.start).Pairwise (· ≤ ·) :=
  List.pairwise_map.2
    (Program.pairwise_start_errors (Cursor.ofString source).pairwise_start_tokens)

/-- **One error for each statement that is dropped, in the order of the text.**  At the head of each
turn a session is on no level and has its first settings; a try at a statement there gives one, or
one error more.  The turns come to an end with all statements and all errors of the parse, which are
as many as the turns.  A text is accepted exactly if no turn drops its statement, and no error is at
a token before that of an earlier error. -/
theorem parse_tallies (source : String) (settings : Settings) :
    (∀ n, (Session.atTurn source settings n).depth = 0 ∧
      (Session.atTurn source settings n).settings = settings ∧
      ((Session.atTurn source settings n).rest ≠ [] →
        (Session.atTurn source settings n).Tallies)) ∧
    (∃ n, (∀ m, (Session.atTurn source settings m).rest = [] ↔ n ≤ m) ∧
      (parse source settings).program.statements =
        (List.range n).filterMap
          (fun m => (Session.statement.run (Session.atTurn source settings m)).1) ∧
      (parse source settings).errors = (Session.atTurn source settings n).errors ∧
      (parse source settings).program.statements.length +
        (parse source settings).errors.length = n) ∧
    (((parse source settings).isOk ↔ Session.DropsNone source settings) ∧
      ((∃ p, (parse source settings).result = .ok p) ↔ Session.DropsNone source settings) ∧
      ∀ file, (∃ p, check file source = .ok p) ↔ Session.DropsNone source {}) ∧
    ((parse source settings).errors.map fun e => e.token.span.start).Pairwise (· ≤ ·) ∧
    ∀ file r, check file source = .error r →
      (r.errors.map fun e => e.token.span.start).Pairwise (· ≤ ·) := by
  have hdepth : (Session.start source settings).depth = 0 := rfl
  refine ⟨?_, ⟨(Session.start source settings).outcomes.length, ?_, ?_, ?_, ?_⟩, ⟨?_, ?_, ?_⟩,
    pairwise_start_errors source settings, ?_⟩
  · intro n
    obtain ⟨hn, hsettings⟩ := Session.iterate_next_depth hdepth n
    exact ⟨hn, hsettings, Session.tallies_of_rest_ne_nil hn⟩
  · exact Session.iterate_next_rest_eq_nil_iff hdepth
  · refine Eq.symm (Eq.trans (Session.filterMap_iterate_next hdepth _) ?_)
    rw [List.take_length]
    rfl
  · rw [Session.atTurn, Session.iterate_next_errors hdepth, List.take_length]
    rfl
  · exact Parse.length_add_length_ofOutcomes _
  · exact (Session.dropsNone_iff source settings).symm
  · rw [Parse.exists_result_eq_ok_iff, Session.dropsNone_iff]
  · intro file
    rw [exists_check_eq_ok_iff, Session.dropsNone_iff]
  · intro file r h
    rw [errors_of_check_eq_error h]
    exact pairwise_start_errors source {}

end MonkeyLang
