import MonkeyLang.Proofs.Lookahead

/-!
# A pass and a session are one parser

A session is told of by the lexemes that it has left, a pass by its window.  What they have in common is their
limits, their level, their errors and their place; so wherever a pass is, there is a session too
(`Journal.session`).

A pass and that session do the same from there on.  Where one of them reads an expression, so does the other
(`Work.expression_session`); the window then shows the last token of what was read, and the session stands at
the next.  Where one of them fails in a statement, so does the other, and the window is where the session is
stuck (`Work.statement_session`).  A turn of the loop over the statements takes both of them to the head of the
next turn (`Work.turn_session`), and so the states of the pass at the heads of its turns are the sessions of
the turns (`Work.program_atTurn`).
-/

namespace MonkeyLang

open Session (atTurn)

/-- The session on the level of a pass, with its limits and its errors, at the lexeme at index `i` of those
that a scanner had left. -/
def Journal.session (j : Journal) (scanner : Scanner) (i : Nat) : Session :=
  ⟨⟨j.settings, scanner.lexemesFrom i, scanner.cursor.stop, j.errors⟩, j.depth⟩

variable {scanner : Scanner} {settings : Settings} {j j' : Journal} {i k n : Nat}

/-- What has become of a pass has become of its session. -/
theorem Journal.Goes.session_eq {new : List ParseError} (h : Goes scanner settings j j' k new)
    (hj : j.At scanner settings i) (m : Nat) : j'.session scanner m =
      { j.session scanner i with rest := scanner.lexemesFrom m, errors := j.errors ++ new } := by
  simp only [session, h.arrives.settings_eq, hj.settings_eq, h.errors_eq, h.depth_eq]

namespace Work

open Journal

/-- A part that has read what a reader reads has left the session where the reading leaves it. -/
theorem Gets.follow_session {α : Type} {out : Option (Option α × Journal)} {r : Reading α}
    (hj : j.At scanner settings i) (h : Gets scanner settings (·.rest) j out r) :
    let result := (j.session scanner i).follow r
    ∃ j' k, out = some (result.1, j') ∧ j'.At scanner settings k ∧
      result.2 = j'.session scanner (if result.1.isSome then k + 1 else k) := by
  cases r with
  | ok q =>
    obtain ⟨j', k, hout, hgoes, hrest⟩ := h
    refine ⟨j', k, hout, hgoes.arrives, ?_⟩
    rw [Session.follow, Option.isSome_some, if_pos rfl, hgoes.session_eq hj, hrest, List.append_nil]
    rfl
  | error x =>
    obtain ⟨j', k, hout, hgoes, hrest⟩ := h
    refine ⟨j', k, hout, hgoes.arrives, ?_⟩
    rw [Session.follow, Option.isSome_none, if_neg Bool.false_ne_true, hgoes.session_eq hj, hrest]
    rfl

/-- **An expression is the same for a pass and its session,** on any level and with any errors so far. -/
theorem expression_session (h : j.At scanner settings i) (p : Precedence)
    (hn : (scanner.lexemesFrom i).length < n) :
    let result := (Session.expression p).run (j.session scanner i)
    ∃ j' k, (expression n p).run j = some (result.1, j') ∧ j'.At scanner settings k ∧
      result.2 = j'.session scanner (if result.1.isSome then k + 1 else k) := by
  have hgets := reads_reader scanner settings n _ p j i h rfl hn
  have hlimit : (j.session scanner i).settings = settings := h.settings_eq
  rw [Session.expression_run, hlimit]
  exact hgets.follow_session h

/-- **A statement is the same for a pass and its session** that are on no level.  If it fails, the window is
where the session is stuck. -/
theorem statement_session (h : j.At scanner settings i) (hdepth : j.depth = 0) {t : Lexeme}
    {ts : List Lexeme} (hts : scanner.lexemesFrom i = t :: ts) (hn : (t :: ts).length < n) :
    let s := j.session scanner i
    ∃ j' k, (statement n).run j = some ((Session.statement.run s).1, j') ∧ j'.At scanner settings k ∧
      ((Session.statement.run s).1.isSome → (Session.statement.run s).2 = j'.session scanner (k + 1)) ∧
      ((Session.statement.run s).1 = none → s.stuck = j'.session scanner k) := by
  intro s
  have hgets := statement_gets h hdepth hts hn
  have hrun := Session.statement_run (s := s) hdepth hts
  have hlimit : s.settings.maxDepth = settings.maxDepth := by rw [← h.settings_eq]; rfl
  rw [hlimit] at hrun
  cases hp : Statement.parse settings.maxDepth t ts with
  | ok q =>
    rw [hp] at hgets hrun
    obtain ⟨j', k, hout, hgoes, hrest⟩ := hgets
    rw [hrun]
    refine ⟨j', k, hout, hgoes.arrives, fun _ => ?_, fun hnone => absurd hnone (Option.some_ne_none _)⟩
    rw [hgoes.session_eq h, hrest, List.append_nil]
    rfl
  | error x =>
    rw [hp] at hgets hrun
    obtain ⟨j', k, hout, hgoes, hstand⟩ := hgets
    have hstuck : s.stuck = { s with
        rest := x.stand s.rest, errors := s.errors ++ [x.error s.stop] } := by
      rw [Session.stuck, hrun]
      simp only [Session.follow, List.getLast?_append, List.getLast?_singleton, Option.some_or]
      rfl
    rw [hrun]
    refine ⟨j', k, hout, hgoes.arrives, fun hsome => absurd hsome Bool.false_ne_true, fun _ => ?_⟩
    rw [hstuck, hgoes.session_eq h, hstand, ← hts]
    rfl

/-- **A turn is the same for a pass and its session:** it takes them both to the head of the next. -/
theorem turn_session (hin : scanner.IsIn) (h : j.At scanner settings i) (hdepth : j.depth = 0)
    (hn : (scanner.lexemesFrom i).length < n) (xs : List Statement) :
    let s := j.session scanner i
    ∃ j' k, (program (n + 1) xs).run j =
        (program n (xs ++ (Session.statement.run s).1.toList)).run j' ∧
      j'.At scanner settings k ∧ j'.depth = 0 ∧ s.next = j'.session scanner k := by
  intro s
  have hlimit : s.settings.maxDepth = settings.maxDepth := by rw [← h.settings_eq]; rfl
  cases hts : scanner.lexemesFrom i with
  | nil =>
    have hrest : s.rest = [] := hts
    have hnone : (Session.statement.run s).1 = none := by
      rw [Session.statement, Session.run_front_bind, hrest]
      rfl
    obtain ⟨m, rfl⟩ := Nat.exists_eq_succ_of_ne_zero (Nat.ne_of_gt (Nat.zero_lt_of_lt hn))
    refine ⟨j, i, ?_, h, hdepth, Session.next_of_rest_eq_nil hrest⟩
    rw [hnone, Option.toList_none, List.append_nil, program_run_at_end h hts, program_run_at_end h hts]
  | cons t ts =>
    rw [hts] at hn
    obtain ⟨j', k, hturn, hgoes, hrest⟩ := program_turn hin h hdepth hts hn xs
    refine ⟨j', k, ?_, hgoes.arrives, hgoes.depth_eq.trans hdepth, ?_⟩
    · rw [Session.statement_run_fst (s := s) hdepth hts, hlimit]
      exact hturn
    · rw [Session.next_eq (s := s) hdepth hts, hlimit, hgoes.session_eq h, hrest]
      rfl

/-- **The sessions of the turns are the states of the pass** at the heads of its turns.  Behind `m` turns the
pass is where the session of turn `m` is, with the statements that the turns before it have given and with the
rest of its time. -/
theorem program_atTurn (source : String) (settings : Settings) (m : Nat)
    (hn : (tokens source).length < n) :
    ∃ j i, j.At (.ofString source) settings i ∧ j.depth = 0 ∧
      atTurn source settings m = j.session (.ofString source) i ∧
      (program (n + m) []).run (.start source settings) =
        (program n ((List.range m).filterMap fun l =>
          (Session.statement.run (atTurn source settings l)).1)).run j := by
  induction m generalizing n with
  | zero =>
    refine ⟨.start source settings, 0, at_ofScanner (.ofString source) settings, rfl, ?_, rfl⟩
    rfl
  | succ m ih =>
    obtain ⟨j, i, hj, hdepth, hs, hrun⟩ := ih (Nat.lt_succ_of_lt hn)
    have hlt : ((Scanner.ofString source).lexemesFrom i).length < n := by
      have hle := ((Scanner.ofString source).lexemesFrom_suffix i).length_le
      rw [tokens_eq_append, List.length_append, List.length_map] at hn
      exact Nat.lt_of_le_of_lt hle (Nat.lt_of_le_of_lt (Nat.le_add_right _ _) hn)
    obtain ⟨j', k, hturn, hj', hdepth', hnext⟩ :=
      turn_session (Scanner.isIn_ofString source) hj hdepth hlt
        ((List.range m).filterMap fun l => (Session.statement.run (atTurn source settings l)).1)
    refine ⟨j', k, hj', hdepth', ?_, ?_⟩
    · rw [Session.atTurn_succ, hs, hnext]
    · have htime : n + (m + 1) = n + 1 + m := by omega
      rw [htime, hrun, hturn, ← hs, List.range_succ, List.filterMap_append, filterMap_cons_eq_append,
        List.filterMap_nil, List.append_nil]

end Work

end MonkeyLang
