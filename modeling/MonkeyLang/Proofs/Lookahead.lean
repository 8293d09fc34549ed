import MonkeyLang.Proofs.Pass
import MonkeyLang.Proofs.Progress

/-!
# Parsing with one token of lookahead

The parts of a pass and the readers of a stream tell of one parser.  A part that is at index `i` of the
tokens that its scanner had left, with more time than there are lexemes behind them, has the outcome that the
reader has of the lexemes from index `i` on (`Work.Gets`).  If something is read, its last token is the
current one then.  If not, the one error of the failure has been reported, and the window stays where the
failure was met with.  In both cases the pass is on the level again on which it was, and it has come there
step by step.

This is so of an expression on any level (`Work.reads_reader`), of a statement that is begun on no level
(`Work.statement_gets`), of what is skipped behind a failure (`Work.recover_run`), of a turn of the loop over
the statements (`Work.program_turn`) and of that loop (`Work.program_run`).  So a pass ends, with what the
lexemes that were left parse to (`Work.program_ofScanner`).  And in each of its states the window shows two
neighbours in the row of tokens, since every step keeps that.

Recovery asks whether a line begins with the current token only past the place of the failure.  The window
has been moved by then, so the offset that it has is where a token ends, and the answer is that of the
stream (`Work.endsHere_run`).
-/

namespace MonkeyLang

open Character

variable {scanner : Scanner} {settings : Settings}

namespace Work

open Journal

variable {α β : Type} {part : Work α} {j j' : Journal} {i k n : Nat}
  {stand : Failure → List Lexeme}

/-! ## Runs -/

/-- What follows a part that has ended. -/
theorem run_bind_of (f : α → Work β) {a : α} (h : part.run j = some (a, j')) :
    (part >>= f).run j = (f a).run j' := by
  rw [StateT.run_bind, h]
  rfl

@[simp] theorem run_now_bind (f : Pass → Work α) (j : Journal) :
    (now >>= f).run j = (f j.toPass).run j := rfl

@[simp] theorem run_advance_bind (f : Unit → Work α) (j : Journal) :
    (advance >>= f).run j = (f ()).run j.moved := rfl

@[simp] theorem run_deepen_bind (f : Unit → Work α) (j : Journal) :
    (deepen >>= f).run j = (f ()).run j.deepened := rfl

@[simp] theorem run_rise_bind (f : Unit → Work α) (j : Journal) :
    (rise >>= f).run j = (f ()).run j.risen := rfl

/-- What comes of a part that reads what a reader reads.  If there is something, the last token of it is the
current one then.  If not, the failure has been reported, and the window is where `stand` has it. -/
def Gets (scanner : Scanner) (settings : Settings) (stand : Failure → List Lexeme)
    (j : Journal) (out : Option (Option α × Journal)) : Reading α → Prop
  | .ok (a, rest) => ∃ j' i, out = some (some a, j') ∧ Goes scanner settings j j' i [] ∧
      scanner.lexemesFrom (i + 1) = rest
  | .error x => ∃ j' i, out = some (none, j') ∧
      Goes scanner settings j j' i [x.error scanner.cursor.stop] ∧ scanner.lexemesFrom i = stand x

theorem Gets.of_goes {out : Option (Option α × Journal)} {r : Reading α}
    (h : Goes scanner settings j j' i []) (hgets : Gets scanner settings stand j' out r) :
    Gets scanner settings stand j out r := by
  cases r with
  | ok q =>
    obtain ⟨j'', k, hout, hgoes, hrest⟩ := hgets
    exact ⟨j'', k, hout, h.trans hgoes, hrest⟩
  | error x =>
    obtain ⟨j'', k, hout, hgoes, hrest⟩ := hgets
    exact ⟨j'', k, hout, h.trans hgoes, hrest⟩

/-- What follows a part that has read something. -/
theorem Gets.bind_ok {part : Work (Option α)} {f : Option α → Work (Option β)} {a : α}
    {rest : List Lexeme} {stand' : Failure → List Lexeme} {r : Reading β}
    (h : Gets scanner settings stand j (part.run j) (.ok (a, rest)))
    (hf : ∀ j' k, Goes scanner settings j j' k [] → scanner.lexemesFrom (k + 1) = rest →
      Gets scanner settings stand' j' ((f (some a)).run j') r) :
    Gets scanner settings stand' j ((part >>= f).run j) r := by
  obtain ⟨j', k, hrun, hgoes, hrest⟩ := h
  rw [run_bind_of f hrun]
  exact Gets.of_goes hgoes (hf j' k hgoes hrest)

/-- Nothing follows a part that has failed. -/
theorem Gets.bind_error {part : Work (Option α)} {f : Option α → Work (Option β)} {x : Failure}
    (h : Gets scanner settings stand j (part.run j) (.error x)) (hf : f none = pure none) :
    Gets scanner settings stand j ((part >>= f).run j) (.error x : Reading β) := by
  obtain ⟨j', k, hrun, hgoes, hrest⟩ := h
  rw [run_bind_of f hrun, hf]
  exact ⟨j', k, rfl, hgoes, hrest⟩

/-- A part on the next level, and the way back from there. -/
theorem Gets.bind_rise {part : Work (Option α)} {r : Reading α}
    (h : Gets scanner settings stand j.deepened (part.run j.deepened) r) :
    Gets scanner settings stand j
      ((part >>= fun a => rise >>= fun _ => (pure a : Work (Option α))).run j.deepened) r := by
  cases r with
  | ok q =>
    obtain ⟨j', k, hrun, hgoes, hrest⟩ := h
    rw [run_bind_of _ hrun, run_rise_bind]
    exact ⟨j'.risen, k, rfl, hgoes.risen, hrest⟩
  | error x =>
    obtain ⟨j', k, hrun, hgoes, hrest⟩ := h
    rw [run_bind_of _ hrun, run_rise_bind]
    exact ⟨j'.risen, k, rfl, hgoes.risen, hrest⟩

theorem error_lexemesFrom (problem : Problem) (scanner : Scanner) (i : Nat) :
    Failure.error ⟨problem, scanner.lexemesFrom i⟩ scanner.cursor.stop =
      ⟨problem, scanner.tokenAt i⟩ := by
  cases h : scanner.lexemesFrom i with
  | nil => rw [Scanner.tokenAt_of_nil h]; rfl
  | cons t ts => rw [Scanner.tokenAt_of_cons h]; rfl

/-- A part that is refused at the current token. -/
theorem gets_refused (h : j.At scanner settings i) (problem : Problem) :
    Gets scanner settings (·.rest) j
      ((report problem j.current >>= fun _ => (pure none : Work (Option α))).run j)
      (.error ⟨problem, scanner.lexemesFrom i⟩) := by
  refine ⟨j.blamed problem j.current, i, rfl, ?_, rfl⟩
  rw [error_lexemesFrom, ← h.current_eq]
  exact h.blamed problem j.current

/-! ## Expressions -/

/-- With more time than there are lexemes left, and with `budget` levels left, an operand is the one of the
reader. -/
def Reads (scanner : Scanner) (settings : Settings) (n budget : Nat)
    (deeper : Precedence → Work (Option Expression)) (r : Expression.OperandReader) : Prop :=
  ∀ p j i, At scanner settings j i → settings.maxDepth - j.depth = budget →
    (scanner.lexemesFrom i).length < n →
    Gets scanner settings (·.rest) j ((deeper p).run j) (r.read p (scanner.lexemesFrom i))

section Expressions

variable {budget : Nat} {deeper : Precedence → Work (Option Expression)}
  {r : Expression.OperandReader}

theorem primary_gets (hr : Reads scanner settings n budget deeper r) (h : j.At scanner settings i)
    (hbudget : settings.maxDepth - j.depth = budget) (hn : (scanner.lexemesFrom i).length ≤ n) :
    Gets scanner settings (·.rest) j ((primary deeper).run j)
      (Expression.readPrimary r (scanner.lexemesFrom i)) := by
  have hrefused := gets_refused (α := Expression) h
  rw [primary, run_now_bind]
  cases hts : scanner.lexemesFrom i with
  | nil =>
    have hkind : j.current.kind = .endOfText := h.kind_of_nil hts
    rw [hts] at hrefused
    simp only [hkind]
    exact hrefused .noOperand
  | cons t ts =>
    have hcurrent : j.current = t.token := h.current_of_cons hts
    rw [hts] at hrefused
    rw [hcurrent] at hrefused ⊢
    cases hk : t.kind with
    | name =>
      rw [Expression.readPrimary_name r hk]
      simp only [hk]
      exact ⟨j, i, rfl, .refl h, Scanner.lexemesFrom_succ hts⟩
    | integer =>
      simp only [hk, Expression.readPrimary]
      cases hread : Numeral.read? t.token.literal.toList with
      | some n => exact ⟨j, i, rfl, .refl h, Scanner.lexemesFrom_succ hts⟩
      | none => exact hrefused .integerTooGreat
    | operator o =>
      simp only [hk, Expression.readPrimary]
      by_cases hu : (TokenKind.operator o).isUnary
      · have hoperand := hr .unary j.moved (i + 1) h.moved.arrives hbudget
        rw [hts, List.length_cons] at hn
        rw [if_pos hu, if_pos hu, run_advance_bind]
        rw [Scanner.lexemesFrom_succ hts] at hoperand
        replace hoperand := hoperand hn
        refine Gets.of_goes h.moved ?_
        cases he : r.read .unary ts with
        | ok q =>
          rw [he] at hoperand
          exact Gets.bind_ok hoperand fun j' k hgoes hrest => ⟨j', k, rfl, .refl hgoes.arrives, hrest⟩
        | error x =>
          rw [he] at hoperand
          exact Gets.bind_error hoperand rfl
      · rw [if_neg hu, if_neg hu]
        exact hrefused .noOperand
    | _ =>
      simp only [hk, Expression.readPrimary, TokenKind.isUnary, Bool.false_eq_true, if_false]
      exact hrefused .noOperand

/-- The token ahead does not bind above `p` if the loop over operators ends there. -/
theorem not_lt_of_haltsAt {p : Precedence} (h : j.At scanner settings i)
    (hhalt : Expression.HaltsAt p (scanner.lexemesFrom (i + 1))) : ¬ p < j.ahead.kind.precedence := by
  rw [h.ahead_eq]
  cases hts : scanner.lexemesFrom (i + 1) with
  | nil =>
    rw [Scanner.tokenAt_of_nil hts]
    exact Nat.not_lt_zero _
  | cons t ts =>
    rw [hts] at hhalt
    rw [Scanner.tokenAt_of_cons hts]
    exact Nat.not_lt.2 (hhalt t rfl)

/-- The loop goes past an operator that it takes, and takes an operand more. -/
theorem extend_run_of_lt (deeper : Precedence → Work (Option Expression)) {p : Precedence} (n : Nat)
    (left : Expression) (hlt : p < j.ahead.kind.precedence) :
    (extend deeper p (n + 1) left).run j = (do
      let some right ← deeper j.ahead.kind.precedence | return none
      extend deeper p n (.binary left j.ahead right) : Work (Option Expression)).run j.moved.moved := by
  have hsemicolon : j.ahead.kind ≠ .semicolon := by
    intro hk
    rw [hk] at hlt
    exact absurd hlt (Nat.not_lt_zero _)
  rw [extend, run_now_bind, if_pos ⟨hsemicolon, hlt⟩, if_pos (Expression.isBinary_of_lt hlt),
    run_advance_bind, run_now_bind, run_advance_bind]
  rfl

/-- By induction on the time, of which there is more than there are lexemes behind the left operand. -/
theorem extend_gets (hr : Reads scanner settings n budget deeper r) (p : Precedence) (m : Nat)
    (left : Expression) (h : j.At scanner settings i) (hbudget : settings.maxDepth - j.depth = budget)
    (hm : (scanner.lexemesFrom (i + 1)).length < m) (hmn : m ≤ n) :
    Gets scanner settings (·.rest) j ((extend deeper p m left).run j)
      (Expression.extend r p left (scanner.lexemesFrom (i + 1))) := by
  induction m generalizing i j left with
  | zero => exact absurd hm (Nat.not_lt_zero _)
  | succ m ih =>
    by_cases hhalt : Expression.HaltsAt p (scanner.lexemesFrom (i + 1))
    · rw [Expression.extend_of_haltsAt r left hhalt, extend, run_now_bind,
        if_neg fun hc => not_lt_of_haltsAt h hhalt hc.2]
      exact ⟨j, i, rfl, .refl h, rfl⟩
    · obtain ⟨t, ts, hts, ht⟩ := Expression.exists_cons_of_not_haltsAt hhalt
      have hahead : j.ahead = t.token := h.ahead_of_cons hts
      have hmoved := h.moved.trans h.moved.arrives.moved
      have hright := hr t.kind.precedence j.moved.moved (i + 2) hmoved.arrives
        (by rw [hmoved.depth_eq, hbudget])
      rw [hts, List.length_cons] at hm
      rw [Scanner.lexemesFrom_succ hts] at hright
      replace hright := hright (by omega)
      rw [extend_run_of_lt deeper m left (by rwa [hahead]), hahead, hts]
      refine Gets.of_goes hmoved ?_
      cases he : r.read t.kind.precedence ts with
      | ok q =>
        obtain ⟨right, rest⟩ := q
        rw [he] at hright
        rw [Expression.extend_cons r left ht he]
        refine Gets.bind_ok hright fun j' k hgoes hrest => ?_
        have hlt := r.rest_length_lt he
        rw [← hrest] at hlt ⊢
        exact ih _ hgoes.arrives (by rw [hgoes.depth_eq, hmoved.depth_eq, hbudget]) (by omega) (by omega)
      | error x =>
        rw [he] at hright
        rw [Expression.extend_cons_error r left ht he]
        exact Gets.bind_error hright rfl

theorem above_gets (hr : Reads scanner settings n budget deeper r) (p : Precedence)
    (h : j.At scanner settings i) (hbudget : settings.maxDepth - j.depth = budget)
    (hn : (scanner.lexemesFrom i).length ≤ n) :
    Gets scanner settings (·.rest) j ((above deeper p n).run j)
      (Expression.readAbove r p (scanner.lexemesFrom i)) := by
  have hprimary := primary_gets hr h hbudget hn
  have horderly := Expression.readPrimary_orderly r (scanner.lexemesFrom i)
  rw [above, Expression.readAbove]
  cases hp : Expression.readPrimary r (scanner.lexemesFrom i) with
  | ok q =>
    obtain ⟨left, rest⟩ := q
    rw [hp] at hprimary horderly
    obtain ⟨t, us, hts, hsuffix⟩ := horderly
    have hlt : rest.length < n := by
      rw [hts, List.length_cons] at hn
      exact Nat.lt_of_le_of_lt hsuffix.length_le hn
    refine Gets.bind_ok hprimary fun j' k hgoes hrest => ?_
    rw [← hrest] at hlt ⊢
    exact extend_gets hr p n left hgoes.arrives (by rw [hgoes.depth_eq, hbudget]) hlt (Nat.le_refl n)
  | error x =>
    rw [hp] at hprimary
    exact Gets.bind_error hprimary rfl

end Expressions

/-- By induction on the time, of which each level takes some.  The level is back where it was behind an
operand. -/
theorem reads_reader (scanner : Scanner) (settings : Settings) (n budget : Nat) :
    Reads scanner settings n budget (expression n) (Expression.reader settings.maxDepth budget) := by
  induction n generalizing budget with
  | zero =>
    intro p j i _ _ hn
    exact absurd hn (Nat.not_lt_zero _)
  | succ n ih =>
    intro p j i h hbudget hn
    rw [expression, run_now_bind, h.settings_eq]
    cases budget with
    | zero =>
      have hdepth : settings.maxDepth ≤ j.depth := Nat.le_of_sub_eq_zero hbudget
      rw [if_pos hdepth]
      exact gets_refused h _
    | succ budget =>
      have hdepth : ¬ settings.maxDepth ≤ j.depth := by omega
      have hdeepened : settings.maxDepth - j.deepened.depth = budget := by
        show settings.maxDepth - (j.depth + 1) = budget
        omega
      rw [if_neg hdepth, run_deepen_bind]
      exact Gets.bind_rise (above_gets (ih budget) p h.deepened hdeepened (Nat.le_of_lt_succ hn))

/-! ## Statements -/

/-- A statement that has been read, with the semicolon behind it gone. -/
def closed (r : Reading Statement) : Reading Statement :=
  r.map fun q => (q.1, Statement.dropSemicolon q.2)

/-- What a statement is built of, with the semicolon behind it gone. -/
def ended (build : Expression → Statement) (r : Reading Expression) : Reading Statement :=
  r.map fun q => (build q.1, Statement.dropSemicolon q.2)

theorem closed_readReturning (limit : Nat) (token : Token) (ts : List Lexeme) :
    closed (Statement.readReturning limit token ts) =
      ended (.returning token) (Expression.parse limit ts) := by
  rw [Statement.readReturning]
  cases Expression.parse limit ts <;> rfl

theorem closed_readExpression (limit : Nat) (token : Token) (ts : List Lexeme) :
    closed (Statement.readExpression limit token ts) =
      ended (.expression token) (Expression.parse limit ts) := by
  rw [Statement.readExpression]
  cases Expression.parse limit ts <;> rfl

theorem closed_readBinding (limit : Nat) (token : Token) {n a : Lexeme} (hn : n.kind = .name)
    (ha : a.kind = .operator .assign) (ts : List Lexeme) :
    closed (Statement.readBinding limit token (n :: a :: ts)) =
      ended (.binding token n.token) (Expression.parse limit ts) := by
  have hname : MonkeyLang.expect .name (n :: a :: ts) = .ok (n.token, a :: ts) :=
    expect_eq_ok_iff.2 ⟨n, rfl, rfl, hn⟩
  have hsign : MonkeyLang.expect (.operator .assign) (a :: ts) = .ok (a.token, ts) :=
    expect_eq_ok_iff.2 ⟨a, rfl, rfl, ha⟩
  simp only [Statement.readBinding, hname, hsign, bind, Except.bind]
  cases Expression.parse limit ts <;> rfl

theorem semicolon_run (h : j.At scanner settings i) :
    ∃ j' k, semicolon.run j = some ((), j') ∧ Goes scanner settings j j' k [] ∧
      scanner.lexemesFrom (k + 1) = Statement.dropSemicolon (scanner.lexemesFrom (i + 1)) := by
  rw [semicolon, run_now_bind, h.ahead_eq]
  cases hts : scanner.lexemesFrom (i + 1) with
  | nil =>
    rw [Scanner.tokenAt_of_nil hts]
    exact ⟨j, i, rfl, .refl h, hts⟩
  | cons t ts =>
    rw [Scanner.tokenAt_of_cons hts, Statement.dropSemicolon]
    by_cases ht : t.kind = .semicolon
    · rw [if_pos ht, if_pos ht]
      exact ⟨j.moved, i + 1, rfl, h.moved, Scanner.lexemesFrom_succ hts⟩
    · rw [if_neg ht, if_neg ht]
      exact ⟨j, i, rfl, .refl h, hts⟩

theorem ending_gets (build : Expression → Statement) (h : j.At scanner settings i)
    (hdepth : j.depth = 0) (hn : (scanner.lexemesFrom i).length < n) :
    Gets scanner settings (·.rest) j ((ending n build).run j)
      (ended build (Expression.parse settings.maxDepth (scanner.lexemesFrom i))) := by
  have hvalue := reads_reader scanner settings n settings.maxDepth .lowest j i h
    (by rw [hdepth, Nat.sub_zero]) hn
  rw [ending, Expression.parse]
  cases he : (Expression.reader settings.maxDepth settings.maxDepth).read .lowest
      (scanner.lexemesFrom i) with
  | ok q =>
    rw [he] at hvalue
    refine Gets.bind_ok hvalue fun j' k hgoes hrest => ?_
    obtain ⟨j'', m, hrun, hgoes', hrest'⟩ := semicolon_run hgoes.arrives
    rw [hrest] at hrest'
    exact ⟨j'', m, run_bind_of _ hrun, hgoes', hrest'⟩
  | error x =>
    rw [he] at hvalue
    exact Gets.bind_error hvalue rfl

/-- A failure to read a value is met with at the token that is refused. -/
theorem ending_gets_stand (build : Expression → Statement) (ts : List Lexeme)
    (h : j.At scanner settings i) (hdepth : j.depth = 0) (hn : (scanner.lexemesFrom i).length < n) :
    Gets scanner settings (·.stand ts) j ((ending n build).run j)
      (ended build (Expression.parse settings.maxDepth (scanner.lexemesFrom i))) := by
  have hending := ending_gets build h hdepth hn
  cases he : Expression.parse settings.maxDepth (scanner.lexemesFrom i) with
  | ok q =>
    rw [he] at hending
    exact hending
  | error x =>
    rw [he] at hending
    obtain ⟨j', k, hrun, hgoes, hrest⟩ := hending
    have hrefused := (Expression.refused_of_parse_eq_error he).2
    have hstand : x.stand ts = x.rest := by
      rw [Failure.stand, hrefused]
      rfl
    exact ⟨j', k, hrun, hgoes, hrest.trans hstand.symm⟩

theorem expect_run_of_eq (h : j.At scanner settings i) {kind : TokenKind}
    (hk : (scanner.tokenAt (i + 1)).kind = kind) : (expect kind).run j = some (true, j.moved) := by
  rw [expect, run_now_bind, h.ahead_eq, if_pos hk]
  rfl

theorem expect_run_of_ne (h : j.At scanner settings i) {kind : TokenKind}
    (hk : (scanner.tokenAt (i + 1)).kind ≠ kind) :
    (expect kind).run j = some (false, j.blamed (.expected kind) (scanner.tokenAt (i + 1))) := by
  rw [expect, run_now_bind, h.ahead_eq, if_neg hk]
  rfl

/-- A token that is looked for is looked for behind the one at which the window stands. -/
theorem stand_of_isExpectation {x : Failure} (hx : x.problem.isExpectation) (pre : List Lexeme)
    (u : Lexeme) : x.stand (pre ++ u :: x.rest) = u :: x.rest := by
  have hlength : (pre ++ u :: x.rest).length - (x.rest.length + 1) = pre.length := by
    rw [List.length_append, List.length_cons]
    omega
  rw [Failure.stand, if_pos hx, hlength, List.drop_left]

theorem stand_suffix {limit : Nat} {t : Lexeme} {ts : List Lexeme} {x : Failure}
    (h : Statement.parse limit t ts = .error x) : x.stand (t :: ts) <:+ t :: ts := by
  rw [Failure.stand]
  split
  · exact List.drop_suffix _ _
  · exact Statement.rest_suffix_of_parse_eq_error h

/-- A token that is missed is reported ahead of the one at which the window stands. -/
theorem gets_unexpected (h : j.At scanner settings i) (pre : List Lexeme) {u : Lexeme}
    {us : List Lexeme} (hts : scanner.lexemesFrom i = u :: us) (kind : TokenKind) :
    Gets scanner settings (·.stand (pre ++ u :: us)) j
      (some ((none : Option Statement), j.blamed (.expected kind) (scanner.tokenAt (i + 1))))
      (.error ⟨.expected kind, us⟩) := by
  have hstand := stand_of_isExpectation (x := ⟨.expected kind, us⟩) rfl pre u
  refine ⟨_, i, rfl, ?_, hts.trans hstand.symm⟩
  rw [← Scanner.lexemesFrom_succ hts, error_lexemesFrom]
  exact h.blamed _ _

theorem binding_gets (h : j.At scanner settings i) (hdepth : j.depth = 0) {t : Lexeme}
    {ts : List Lexeme} (hts : scanner.lexemesFrom i = t :: ts) (hn : ts.length < n) :
    Gets scanner settings (·.stand (t :: ts)) j ((binding n).run j)
      (closed (Statement.readBinding settings.maxDepth t.token ts)) := by
  have hcurrent : j.current = t.token := h.current_of_cons hts
  have hnext := Scanner.lexemesFrom_succ hts
  rw [binding, run_now_bind, hcurrent]
  by_cases hname : (scanner.tokenAt (i + 1)).kind = .name
  · obtain ⟨name, us, hus, hkind⟩ := Scanner.exists_cons_of_kind hname (by decide)
    have hmoved := h.moved
    have hfound : j.moved.current = name.token := hmoved.arrives.current_of_cons hus
    obtain rfl : ts = name :: us := hnext.symm.trans hus
    rw [run_bind_of _ (expect_run_of_eq h hname), if_pos rfl, run_now_bind, hfound]
    refine Gets.of_goes hmoved ?_
    by_cases hsign : (scanner.tokenAt (i + 1 + 1)).kind = .operator .assign
    · obtain ⟨a, vs, hvs, ha⟩ := Scanner.exists_cons_of_kind hsign (by decide)
      have hgoes := hmoved.arrives.moved.trans hmoved.arrives.moved.arrives.moved
      obtain rfl : us = a :: vs := (Scanner.lexemesFrom_succ hus).symm.trans hvs
      have hlt : vs.length < n := by
        rw [List.length_cons, List.length_cons] at hn
        omega
      rw [← Scanner.lexemesFrom_succ hvs] at hlt
      have hending := ending_gets_stand (.binding t.token name.token) (t :: name :: a :: vs)
        hgoes.arrives hdepth hlt
      rw [Scanner.lexemesFrom_succ hvs] at hending
      rw [run_bind_of _ (expect_run_of_eq hmoved.arrives hsign), if_pos rfl, run_advance_bind,
        closed_readBinding _ _ hkind ha]
      exact Gets.of_goes hgoes hending
    · have hmissing := Scanner.head?_kind_ne hsign
      rw [Scanner.lexemesFrom_succ hus] at hmissing
      rw [run_bind_of _ (expect_run_of_ne hmoved.arrives hsign), Statement.readBinding_eq_error_iff.2
        (.inr ⟨name, us, rfl, hkind, .inl (expect_eq_error_iff.2 ⟨rfl, hmissing⟩)⟩)]
      exact gets_unexpected hmoved.arrives [t] hus _
  · have hmissing := Scanner.head?_kind_ne hname
    rw [hnext] at hmissing
    rw [run_bind_of _ (expect_run_of_ne h hname),
      Statement.readBinding_eq_error_iff.2 (.inl (expect_eq_error_iff.2 ⟨rfl, hmissing⟩))]
    exact gets_unexpected h [] hts _

/-- **A statement that is begun on no level** is the one that is read, or its one error is reported. -/
theorem statement_gets (h : j.At scanner settings i) (hdepth : j.depth = 0) {t : Lexeme}
    {ts : List Lexeme} (hts : scanner.lexemesFrom i = t :: ts) (hn : (t :: ts).length < n) :
    Gets scanner settings (·.stand (t :: ts)) j ((statement n).run j)
      (closed (Statement.parse settings.maxDepth t ts)) := by
  have hcurrent : j.current = t.token := h.current_of_cons hts
  rw [statement, run_now_bind, hcurrent]
  split
  · rename_i hlet
    rw [Statement.parse, Lexeme.kind, hlet]
    exact binding_gets h hdepth hts (Nat.lt_of_succ_lt hn)
  · rename_i hreturn
    have hlt : (scanner.lexemesFrom (i + 1)).length < n := by
      rw [Scanner.lexemesFrom_succ hts]
      exact Nat.lt_of_succ_lt hn
    have hending := ending_gets_stand (.returning t.token) (t :: ts) h.moved.arrives hdepth hlt
    rw [Scanner.lexemesFrom_succ hts] at hending
    rw [Statement.parse, Lexeme.kind, hreturn, returning, run_now_bind, run_advance_bind, hcurrent]
    rw [← closed_readReturning] at hending
    exact Gets.of_goes h.moved hending
  · rename_i hlet hreturn
    have hopens : t.kind.opensStatement = false := by
      rw [← Bool.not_eq_true, TokenKind.opensStatement_iff, not_or]
      exact ⟨hlet, hreturn⟩
    have hending := ending_gets_stand (.expression t.token) (t :: ts) h hdepth (by rwa [hts])
    rw [hts, ← closed_readExpression] at hending
    rw [Statement.parse_of_not_opensStatement _ hopens, plain, run_now_bind, hcurrent]
    exact hending

/-! ## Recovery -/

/-- **What is left of a statement ends where the stream has it end.**  A line is asked for only past the
place of the failure, which is no earlier than the first token. -/
theorem endsHere_run (hin : scanner.IsIn) (h : j.At scanner settings i) (begun : Nat) (hk : k ≤ i)
    {t : Lexeme} {ts : List Lexeme} (hts : scanner.lexemesFrom i = t :: ts) :
    ∃ j', (endsHere begun (scanner.tokenAt k).span.start).run j =
        some (decide ((t.kind.opensStatement ∧ t.token.span.start ≠ begun) ∨
          ((scanner.tokenAt k).span.start < t.token.span.start ∧ t.startsLine)), j') ∧
      Goes scanner settings j j' i [] := by
  have hcurrent : j.current = t.token := h.current_of_cons hts
  rw [endsHere, run_now_bind, hcurrent]
  by_cases hopens : t.kind.opensStatement ∧ t.token.span.start ≠ begun
  · rw [if_pos hopens, decide_eq_true (.inl hopens)]
    exact ⟨j, rfl, .refl h⟩
  · rw [if_neg hopens]
    by_cases hlt : (scanner.tokenAt k).span.start < t.token.span.start
    · cases i with
      | zero =>
        rw [Nat.le_zero.1 hk, Scanner.tokenAt_of_cons hts] at hlt
        exact absurd hlt (Nat.lt_irrefl _)
      | succ i =>
        rw [if_pos hlt]
        refine ⟨j.consulted, ?_, h.consulted⟩
        simp only [hopens, hlt, true_and, false_or, Bool.decide_eq_true]
        rw [← h.shows.startsLine_eq hin (.inl (Nat.succ_pos i)) hts]
        rfl
    · rw [if_neg hlt]
      refine ⟨j, ?_, .refl h⟩
      simp only [hopens, hlt, false_and, or_false, decide_false]
      rfl

/-- By induction on the time, of which there is more than there are lexemes left. -/
theorem recovering_run (hin : scanner.IsIn) (h : j.At scanner settings i) (begun : Nat) (hk : k ≤ i)
    (hn : (scanner.lexemesFrom i).length < n) :
    ∃ j' m, (recovering begun (scanner.tokenAt k).span.start n).run j = some ((), j') ∧
      Goes scanner settings j j' m [] ∧
      scanner.lexemesFrom m =
        skipFailed begun (scanner.tokenAt k).span.start (scanner.lexemesFrom i) := by
  induction n generalizing j i with
  | zero => exact absurd hn (Nat.not_lt_zero _)
  | succ n ih =>
    rw [recovering, run_now_bind]
    cases hts : scanner.lexemesFrom i with
    | nil =>
      rw [h.kind_of_nil hts]
      exact ⟨j, i, rfl, .refl h, hts⟩
    | cons t ts =>
      have hnext := Scanner.lexemesFrom_succ hts
      rw [hts, List.length_cons] at hn
      rw [h.current_of_cons hts, skipFailed]
      by_cases hsemicolon : t.kind = .semicolon
      · have hkind : t.token.kind = .semicolon := hsemicolon
        rw [if_pos hsemicolon, hkind]
        exact ⟨j.moved, i + 1, rfl, h.moved, hnext⟩
      · have hends : ¬ t.token.kind.endsStatement := by
          simpa [TokenKind.endsStatement] using ⟨hsemicolon, Scanner.kind_ne_endOfText_of_cons hts⟩
        obtain ⟨j', hrun, hgoes⟩ := endsHere_run hin h begun hk hts
        rw [if_neg hends, if_neg hsemicolon, run_bind_of _ hrun]
        by_cases hstop : (t.kind.opensStatement ∧ t.token.span.start ≠ begun) ∨
            ((scanner.tokenAt k).span.start < t.token.span.start ∧ t.startsLine)
        · rw [decide_eq_true hstop, if_pos rfl, if_pos hstop]
          exact ⟨j', i, rfl, hgoes, hts⟩
        · rw [decide_eq_false hstop, if_neg Bool.false_ne_true, if_neg hstop, run_advance_bind]
          have hmoved := hgoes.trans hgoes.arrives.moved
          obtain ⟨j'', m, hrest, hgoes', hm⟩ := ih hmoved.arrives (Nat.le_succ_of_le hk)
            (by rw [hnext]; exact Nat.lt_of_succ_lt_succ hn)
          rw [hnext] at hm
          exact ⟨j'', m, hrest, hmoved.trans hgoes', hm⟩

/-- **Behind a statement that has failed** the window goes on to where the next attempt begins. -/
theorem recover_run (hin : scanner.IsIn) {t : Lexeme} {ts : List Lexeme} {x : Failure}
    (hsuffix : t :: ts <:+ scanner.cursor.lexemes)
    (hfails : Statement.parse settings.maxDepth t ts = .error x) (h : j.At scanner settings i)
    (hstand : scanner.lexemesFrom i = x.stand (t :: ts)) (hn : (t :: ts).length < n) :
    ∃ j' m, (recover n t.token.span.start).run j = some ((), j') ∧
      Goes scanner settings j j' m [] ∧ scanner.lexemesFrom m = x.resume := by
  have hrow : InOrder ((t :: ts).map (·.token)) :=
    scanner.cursor.inOrder_lexemes.sublist (hsuffix.map (·.token)).sublist
  have hfailed : ∀ u ∈ (x.stand (t :: ts)).head?,
      u.token.span.start = (scanner.tokenAt i).span.start := by
    intro u hu
    obtain ⟨us, hus⟩ := List.head?_eq_some_iff.1 hu
    rw [Scanner.tokenAt_of_cons (hstand.trans hus)]
  have hlt : (scanner.lexemesFrom i).length < n := by
    rw [hstand]
    exact Nat.lt_of_le_of_lt (stand_suffix hfails).length_le hn
  obtain ⟨j', m, hrun, hgoes, hm⟩ := recovering_run hin h t.token.span.start (Nat.le_refl i) hlt
  rw [hstand, Failure.skipFailed_stand hfails hrow hfailed] at hm
  rw [recover, run_now_bind, h.current_eq]
  exact ⟨j', m, hrun, hgoes, hm⟩

/-! ## Programs -/

/-- **A turn of the loop over the statements** is one attempt.  The loop goes on behind it with the statement
that the attempt has given, if any, and otherwise its error has been reported. -/
theorem program_turn (hin : scanner.IsIn) (h : j.At scanner settings i) (hdepth : j.depth = 0)
    {t : Lexeme} {ts : List Lexeme} (hts : scanner.lexemesFrom i = t :: ts)
    (hn : (t :: ts).length < n) (xs : List Statement) :
    let a := Statement.attempt settings.maxDepth scanner.cursor.stop t ts
    ∃ j' k, (program (n + 1) xs).run j =
        (program n (xs ++ (Parse.statement? a.outcome).toList)).run j' ∧
      Goes scanner settings j j' k (Parse.error? a.outcome).toList ∧
      scanner.lexemesFrom k = a.rest := by
  have hstatement := statement_gets h hdepth hts hn
  rw [program, run_now_bind, h.current_of_cons hts,
    if_neg (Scanner.kind_ne_endOfText_of_cons hts)]
  cases hp : Statement.parse settings.maxDepth t ts with
  | ok q =>
    obtain ⟨s, rest⟩ := q
    rw [hp] at hstatement
    obtain ⟨j', k, hrun, hgoes, hrest⟩ := hstatement
    rw [run_bind_of _ hrun, Statement.attempt_of_parse_eq_ok _ hp]
    exact ⟨j'.moved, k + 1, rfl, hgoes.trans hgoes.arrives.moved, hrest⟩
  | error x =>
    rw [hp] at hstatement
    obtain ⟨j', k, hrun, hgoes, hstand⟩ := hstatement
    have hsuffix := scanner.lexemesFrom_suffix i
    rw [hts] at hsuffix
    obtain ⟨j'', m, hrun', hgoes', hresume⟩ := recover_run hin hsuffix hp hgoes.arrives hstand hn
    rw [run_bind_of _ hrun, Statement.attempt_of_parse_eq_error _ hp]
    refine ⟨j'', m, (run_bind_of _ hrun').trans ?_, hgoes.trans hgoes', hresume⟩
    rw [Parse.statement?, Option.toList_none, List.append_nil]

/-- At the end of the text no statement is put behind those so far, and the pass stays as it is. -/
theorem program_run_at_end (h : j.At scanner settings i) (hend : scanner.lexemesFrom i = []) (n : Nat)
    (xs : List Statement) : (program (n + 1) xs).run j = some (xs, j) := by
  rw [program, run_now_bind, if_pos (h.kind_of_nil hend)]
  rfl

/-- By induction on the time, of which each attempt at a statement takes some.  All of them begin on no
level. -/
theorem program_run (hin : scanner.IsIn) (xs : List Statement) (h : j.At scanner settings i)
    (hdepth : j.depth = 0) (hn : (scanner.lexemesFrom i).length + 1 < n) :
    ∃ j' k, (program n xs).run j = some (xs ++ (Program.outcomes settings.maxDepth
        scanner.cursor.stop (scanner.lexemesFrom i)).filterMap Parse.statement?, j') ∧
      Goes scanner settings j j' k ((Program.outcomes settings.maxDepth
        scanner.cursor.stop (scanner.lexemesFrom i)).filterMap Parse.error?) ∧
      scanner.lexemesFrom k = [] := by
  induction n generalizing i j xs with
  | zero => exact absurd hn (Nat.not_lt_zero _)
  | succ n ih =>
    cases hts : scanner.lexemesFrom i with
    | nil =>
      rw [program_run_at_end h hts, Program.outcomes_nil, List.filterMap_nil, List.filterMap_nil,
        List.append_nil]
      exact ⟨j, i, rfl, .refl h, hts⟩
    | cons t ts =>
      rw [hts] at hn
      have hlt : (t :: ts).length < n := Nat.lt_of_succ_lt_succ hn
      obtain ⟨j', k, hturn, hgoes, hrest⟩ := program_turn hin h hdepth hts hlt xs
      have hless : (scanner.lexemesFrom k).length + 1 < n := by
        rw [hrest]
        exact Nat.lt_of_le_of_lt (Nat.succ_le_succ
          (Statement.attempt_rest_suffix _ _ t ts).length_le) hlt
      obtain ⟨j'', m, hrun, hgoes', hend⟩ :=
        ih _ hgoes.arrives (hgoes.depth_eq.trans hdepth) hless
      have hgoes'' := hgoes.trans hgoes'
      rw [hrest] at hrun hgoes''
      rw [hturn, hrun, Program.outcomes_cons, filterMap_cons_eq_append, filterMap_cons_eq_append,
        List.append_assoc]
      exact ⟨j'', m, rfl, hgoes'', hend⟩

end Work

/-! ## All states of a parse -/

namespace Journal

theorem at_ofScanner (scanner : Scanner) (settings : Settings) :
    (ofScanner scanner settings).At scanner settings 0 :=
  ⟨rfl, rfl, .start, fun _ hq => absurd hq List.not_mem_nil⟩

variable {j : Journal} {i : Nat}

/-- Over a text from its start on, the window shows two neighbours in all states, with a blank gap before
them. -/
theorem At.exists_reach {source : String} (h : j.At (.ofString source) settings i) :
    ∀ s ∈ j.reached, ∃ k, s.toWindow = .reach (.ofString source) k ∧ s.current = tokenAt source k ∧
      s.ahead = tokenAt source (k + 1) ∧ s.behind = stopBefore source k ∧
      ∃ gap, s.gap? = some gap ∧ Span.slice? ⟨s.behind, s.current.span.start⟩ source = some gap ∧
        ∀ c ∈ gap.toList, isBlank c := by
  intro s hs
  obtain ⟨k, hk⟩ := h.path.exists_reach s hs
  have hshows : s.toWindow.Shows (.ofString source) k := by
    rw [hk]
    exact Window.shows_reach _ k
  obtain ⟨gap, hgap, hblank⟩ := hshows.exists_gap (Scanner.isIn_ofString source) (.inr rfl)
  have hslice := hshows.gap?_eq.symm.trans hgap
  rw [← hshows.behind_eq, ← hshows.current_eq] at hslice
  refine ⟨k, hk, ?_, ?_, ?_, gap, hgap, hslice, hblank⟩
  · rw [hshows.current_eq, Scanner.tokenAt_ofString]
  · rw [hshows.ahead_eq, Scanner.tokenAt_ofString]
  · rw [hshows.behind_eq, Scanner.stopBefore_ofString]

/-- The answers tell of the line feeds between the tokens of the text. -/
theorem At.exists_answer (hin : scanner.IsIn) (h : j.At scanner settings i) :
    ∀ q ∈ j.asked, q.1 ∈ j.reached ∧ ∃ k gap, q.1.toWindow = .reach scanner (k + 1) ∧
      Span.slice? ⟨(scanner.tokenAt k).span.stop, (scanner.tokenAt (k + 1)).span.start⟩
        scanner.source = some gap ∧ (q.2 ↔ '\n' ∈ gap.toList) := by
  intro q hq
  obtain ⟨hmem, hanswer, k, hk⟩ := h.asked q hq
  have hshows : q.1.toWindow.Shows scanner (k + 1) := by
    rw [hk]
    exact Window.shows_reach scanner (k + 1)
  obtain ⟨gap, hgap, -⟩ := hshows.exists_gap hin (.inl (Nat.succ_pos k))
  refine ⟨hmem, k, gap, hk, hshows.gap?_eq.symm.trans hgap, ?_⟩
  rw [hanswer]
  exact Window.startsLine_iff hgap

end Journal

/-- **A pass over what a scanner has left** ends with what the lexemes from there on parse to, at the end of
the text. -/
theorem Work.program_ofScanner {n : Nat} (hin : scanner.IsIn) (settings : Settings)
    (hn : scanner.cursor.lexemes.length + 1 < n) :
    ∃ j i, (program n []).run (.ofScanner scanner settings) =
        some ((Parser.ofCursor scanner.cursor settings).parse.program.statements, j) ∧
      j.errors = (Parser.ofCursor scanner.cursor settings).parse.errors ∧
      j.At scanner settings i ∧ scanner.lexemesFrom i = [] := by
  obtain ⟨j, i, hrun, hgoes, hend⟩ :=
    program_run hin [] (Journal.at_ofScanner scanner settings) rfl hn
  exact ⟨j, i, hrun, hgoes.errors_eq, hgoes.arrives, hend⟩

/-- **In all states of a parse the window shows two neighbours of the stream.**  The parser with one token
of lookahead ends on every text and under every limit, with the statements and the errors of the parse, and
as soon as its time is enough for all tokens it always ends alike.  In each state that it goes through, step
by step, the window is the first one moved `i` times: the token at index `i` is current and the next is
ahead, with the end of the text for all that would be behind it.  The offset of the window is where the token
before the current one ends, as soon as there is one; so the text from there to the current token is there in
every state, and blank.  Where recovery asks whether a line begins with the current token, the answer is yes
exactly if a line feed is between that token and the one before it. -/
theorem window_follows_stream (source : String) (settings : Settings) :
    ∃ j, (∀ n, (Work.program ((tokens source).length + 1 + n) []).run (.start source settings) =
        some ((parse source settings).program.statements, j)) ∧
      j.errors = (parse source settings).errors ∧
      Pass.Path (.start source settings) j.past j.toPass ∧
      (∀ s ∈ j.reached, ∃ i, s.toWindow = Window.advance^[i] (.ofScanner (.ofString source)) ∧
        s.current = tokenAt source i ∧ s.ahead = tokenAt source (i + 1) ∧
        s.behind = stopBefore source i ∧
        ∃ gap, s.gap? = some gap ∧ Span.slice? ⟨s.behind, s.current.span.start⟩ source = some gap ∧
          ∀ c ∈ gap.toList, isBlank c) ∧
      ∀ q ∈ j.asked, q.1 ∈ j.reached ∧
        ∃ i gap, q.1.toWindow = Window.advance^[i + 1] (.ofScanner (.ofString source)) ∧
          Span.slice? ⟨(tokenAt source i).span.stop, (tokenAt source (i + 1)).span.start⟩ source =
            some gap ∧ (q.2 ↔ '\n' ∈ gap.toList) := by
  have hn : (Scanner.ofString source).cursor.lexemes.length + 1 < (tokens source).length + 1 := by
    rw [tokens_eq_append, List.length_append, List.length_map]
    exact Nat.lt_succ_self _
  have hin := Scanner.isIn_ofString source
  obtain ⟨j, i, hrun, herrors, hat, -⟩ := Work.program_ofScanner hin settings hn
  refine ⟨j, fun n => Work.program_persists_add _ n [] _ _ hrun, herrors, hat.path, hat.exists_reach, ?_⟩
  intro q hq
  obtain ⟨hmem, k, gap, hk, hslice, hanswer⟩ := hat.exists_answer hin q hq
  rw [Scanner.tokenAt_ofString, Scanner.tokenAt_ofString] at hslice
  exact ⟨hmem, k, gap, hk, hslice, hanswer⟩

/-- Behind a binding that has no name, recovery asks at the literal and at the name on the next line. -/
example : ((Work.program 9 []).run (.start "let 1\nb" {})).map (·.2.asked.map (·.2)) =
    some [false, true] := by decide

end MonkeyLang
