import MonkeyLang.Program.Session
import MonkeyLang.Proofs.Acceptance

/-!
# Sessions and readings

A part of a session and the reader of a stream agree on what they read (`Performs`).  A part that reads
what a reader reads either returns it and has changed nothing but the place; or it returns nothing, stands
at the offending lexeme, and has put the one error of the failure behind the errors so far.  In both cases
it is on the level again on which it began.  This is so of an expression on any level and with any errors
so far (`Session.expression_run`), and of a statement that is begun on no level (`Session.statement_run`).
-/

namespace MonkeyLang

namespace Session

variable {α β : Type}

/-! ## Parts and readings -/

/-- The session after a reading from where it stands, and what was read. -/
def follow (s : Session) : Reading α → Option α × Session
  | .ok (a, rest) => (some a, { s with rest := rest })
  | .error x => (none, { s with rest := x.rest, errors := s.errors ++ [x.error s.stop] })

/-- With `budget` levels left of `limit`, the part does what the reader does. -/
def Performs (limit budget : Nat) (part : Part α) (read : List Lexeme → Reading α) : Prop :=
  ∀ s : Session, s.settings.maxDepth = limit → limit - s.depth = budget →
    part.run s = s.follow (read s.rest)

variable {limit budget : Nat}

/-- Parts that run alike are the same. -/
theorem Part.ext {part part' : Part α} (h : ∀ s, part.run s = part'.run s) : part = part' := by
  cases part
  cases part'
  exact congrArg Part.mk (funext h)

theorem run_pure (a : α) (s : Session) : (pure a : Part α).run s = (some a, s) := rfl

/-- What follows a part that has read something. -/
theorem run_bind_of_ok {part : Part α} (f : α → Part β) {s : Session} {a : α} {rest : List Lexeme}
    (h : part.run s = s.follow (.ok (a, rest))) :
    (part >>= f).run s = (f a).run { s with rest := rest } :=
  run_bind_some f h

/-- Nothing follows a part that has failed. -/
theorem run_bind_of_error {part : Part α} (f : α → Part β) {s : Session} {x : Failure}
    (h : part.run s = s.follow (.error x)) : (part >>= f).run s = s.follow (.error x) :=
  run_bind_none f h

/-- Parts in a row do what readings in a row do. -/
theorem run_bind_of_follow {part : Part α} {f : α → Part β} {s : Session} {r : Reading α}
    {g : α × List Lexeme → Reading β} (h : part.run s = s.follow r)
    (hf : ∀ a rest, (f a).run { s with rest := rest } = s.follow (g (a, rest))) :
    (part >>= f).run s = s.follow (r >>= g : Except Failure (β × List Lexeme)) := by
  cases r with
  | ok q => exact (run_bind_of_ok f h).trans (hf q.1 q.2)
  | error x => exact run_bind_of_error f h

@[simp] theorem run_front_bind (f : Option Lexeme → Part α) (s : Session) :
    (front >>= f).run s = (f s.rest.head?).run s := rfl

@[simp] theorem run_remaining_bind (f : Nat → Part α) (s : Session) :
    (remaining >>= f).run s = (f s.rest.length).run s := rfl

@[simp] theorem run_skip_bind (f : Unit → Part α) (s : Session) :
    (skip >>= f).run s = (f ()).run { s with rest := s.rest.tail } := rfl

@[simp] theorem run_semicolon_bind (f : Unit → Part α) (s : Session) :
    (semicolon >>= f).run s = (f ()).run { s with rest := Statement.dropSemicolon s.rest } := rfl

theorem run_refuse (problem : Problem) (s : Session) :
    (refuse problem : Part α).run s = s.follow (.error ⟨problem, s.rest⟩) := rfl

/-- To go on from where the session stands is no change. -/
theorem follow_ok_rest (a : α) (s : Session) : s.follow (.ok (a, s.rest)) = (some a, s) := rfl

/-! ## Expressions -/

section Expressions

variable {deeper : Precedence → Part Expression} {r : Expression.OperandReader}

theorem primary_performs (hd : ∀ p, Performs limit budget (deeper p) (r.read p)) :
    Performs limit budget (primary deeper) (Expression.readPrimary r) := by
  intro s hlimit hbudget
  rw [primary, run_front_bind]
  cases hrest : s.rest with
  | nil =>
    show (refuse .noOperand).run s = s.follow (.error ⟨.noOperand, []⟩)
    rw [run_refuse, hrest]
  | cons t ts =>
    cases hk : t.kind with
    | name =>
      rw [Expression.readPrimary_name r hk]
      simp only [List.head?_cons, hk, run_skip_bind, hrest, List.tail_cons, run_pure]
      rfl
    | integer =>
      simp only [List.head?_cons, hk, Expression.readPrimary]
      cases Numeral.read? t.token.literal.toList with
      | some n =>
        simp only [run_skip_bind, hrest, List.tail_cons, run_pure]
        rfl
      | none => simp only [run_refuse, hrest]
    | operator o =>
      simp only [List.head?_cons, hk, Expression.readPrimary]
      by_cases hu : (TokenKind.operator o).isUnary
      · have hoperand := hd .unary { s with rest := ts } hlimit hbudget
        rw [if_pos hu, if_pos hu, run_skip_bind, hrest, List.tail_cons]
        cases hr : r.read .unary ts with
        | ok q =>
          rw [hr] at hoperand
          exact run_bind_of_ok _ hoperand
        | error x =>
          rw [hr] at hoperand
          exact run_bind_of_error _ hoperand
      · rw [if_neg hu, if_neg hu, run_refuse, hrest]
    | _ =>
      simp only [List.head?_cons, hk, Expression.readPrimary, TokenKind.isUnary,
        Bool.false_eq_true, if_false]
      rw [run_refuse, hrest]

/-- The loop ends at a token that it does not take. -/
theorem extend_succ_of_haltsAt (deeper : Precedence → Part Expression) {p : Precedence} (n : Nat)
    (left : Expression) {s : Session} (h : Expression.HaltsAt p s.rest) :
    (extend deeper p (n + 1) left).run s = (some left, s) := by
  rw [extend, run_front_bind]
  cases hrest : s.rest with
  | nil => rfl
  | cons t ts =>
    rw [hrest] at h
    have hle : t.kind.precedence ≤ p := h t rfl
    simp only [List.head?_cons]
    rw [if_neg fun hc => Nat.not_lt.2 hle hc.1]
    rfl

/-- The loop goes past an operator that it takes, and takes an operand more. -/
theorem extend_succ_of_lt (deeper : Precedence → Part Expression) {p : Precedence} (n : Nat)
    (left : Expression) {s : Session} {t : Lexeme} {ts : List Lexeme} (hrest : s.rest = t :: ts)
    (ht : p < t.kind.precedence) :
    (extend deeper p (n + 1) left).run s =
      (deeper t.kind.precedence >>= fun right =>
        extend deeper p n (.binary left t.token right)).run { s with rest := ts } := by
  rw [extend, run_front_bind, hrest]
  simp only [List.head?_cons]
  rw [if_pos ⟨ht, Expression.isBinary_of_lt ht⟩, run_skip_bind, hrest, List.tail_cons]

/-- By induction on the number of operators, of which there are no more than lexemes. -/
theorem extend_performs (hd : ∀ p, Performs limit budget (deeper p) (r.read p)) (p : Precedence)
    (n : Nat) (left : Expression) (s : Session) (hlimit : s.settings.maxDepth = limit)
    (hbudget : limit - s.depth = budget) (hn : s.rest.length ≤ n) :
    (extend deeper p n left).run s = s.follow (Expression.extend r p left s.rest) := by
  induction n generalizing left s with
  | zero =>
    have hrest : s.rest = [] := List.length_eq_zero_iff.1 (Nat.le_zero.1 hn)
    rw [extend, run_pure, Expression.extend_of_haltsAt r left
      (by rw [hrest]; exact Expression.haltsAt_nil p), follow_ok_rest]
  | succ n ih =>
    by_cases hhalt : Expression.HaltsAt p s.rest
    · rw [extend_succ_of_haltsAt deeper n left hhalt, Expression.extend_of_haltsAt r left hhalt,
        follow_ok_rest]
    · obtain ⟨t, ts, hrest, ht⟩ := Expression.exists_cons_of_not_haltsAt hhalt
      have hright := hd t.kind.precedence { s with rest := ts } hlimit hbudget
      rw [extend_succ_of_lt deeper n left hrest ht, hrest]
      cases hr : r.read t.kind.precedence ts with
      | ok q =>
        obtain ⟨right, rest⟩ := q
        have hlt := r.rest_length_lt hr
        rw [hrest, List.length_cons] at hn
        have hle : rest.length ≤ n := by omega
        rw [hr] at hright
        rw [Expression.extend_cons r left ht hr, run_bind_of_ok _ hright]
        exact ih _ { s with rest := rest } hlimit hbudget hle
      | error x =>
        rw [hr] at hright
        rw [Expression.extend_cons_error r left ht hr]
        exact run_bind_of_error _ hright

theorem above_performs (hd : ∀ p, Performs limit budget (deeper p) (r.read p)) (p : Precedence) :
    Performs limit budget (above deeper p) (Expression.readAbove r p) := by
  intro s hlimit hbudget
  have hprimary := primary_performs hd s hlimit hbudget
  rw [above, Expression.readAbove]
  cases hr : Expression.readPrimary r s.rest with
  | ok q =>
    obtain ⟨left, rest⟩ := q
    rw [hr] at hprimary
    rw [run_bind_of_ok _ hprimary, run_remaining_bind]
    exact extend_performs hd p rest.length left { s with rest := rest } hlimit hbudget (Nat.le_refl _)
  | error x =>
    rw [hr] at hprimary
    exact run_bind_of_error _ hprimary

/-- The counter is back where it was after a part on the next level. -/
theorem nested_performs {part : Part α} {read : List Lexeme → Reading α}
    (h : Performs limit budget part read) : Performs limit (budget + 1) (nested part) read := by
  intro s hlimit hbudget
  have hdepth : ¬ s.settings.maxDepth ≤ s.depth := by omega
  have hpart := h { s with depth := s.depth + 1 } hlimit (by show limit - (s.depth + 1) = budget; omega)
  simp only [nested, if_neg hdepth, hpart]
  cases read s.rest with
  | ok q => rfl
  | error x => rfl

/-- Where the limit admits no further level, a part on it is refused. -/
theorem nested_refused (part : Part α) :
    Performs limit 0 (nested part) fun ts => .error ⟨.tooDeep limit, ts⟩ := by
  intro s hlimit hbudget
  have hdepth : s.settings.maxDepth ≤ s.depth := by omega
  show (if s.settings.maxDepth ≤ s.depth then _ else _) = _
  rw [if_pos hdepth, run_refuse, hlimit]

end Expressions

/-- By induction on the levels that are left: a part on the next level has one less of them. -/
theorem operand_performs (limit budget : Nat) (p : Precedence) :
    Performs limit budget (operand budget p) ((Expression.reader limit budget).read p) := by
  induction budget generalizing p with
  | zero => exact nested_refused _
  | succ budget ih => exact nested_performs (above_performs ih p)

/-- **An expression on any level, with any errors so far,** is what the reader of it gives. -/
theorem expression_run (s : Session) (p : Precedence) :
    (expression p).run s = s.follow ((Expression.reader s.settings.maxDepth
      (s.settings.maxDepth - s.depth)).read p s.rest) :=
  operand_performs s.settings.maxDepth (s.settings.maxDepth - s.depth) p s rfl rfl

/-! ## Statements -/

theorem expect_run (kind : TokenKind) (s : Session) :
    (expect kind).run s = s.follow (MonkeyLang.expect kind s.rest) := by
  rw [expect, run_front_bind]
  cases hrest : s.rest with
  | nil =>
    show (refuse (.expected kind)).run s = s.follow (.error ⟨.expected kind, []⟩)
    rw [run_refuse, hrest]
  | cons t ts =>
    simp only [List.head?_cons, MonkeyLang.expect]
    by_cases ht : t.kind = kind
    · rw [if_pos ht, if_pos ht, run_skip_bind, hrest]
      rfl
    · rw [if_neg ht, if_neg ht, run_refuse, hrest]

/-- Where a session stands makes no difference to where a reading takes it. -/
theorem follow_rest (s : Session) (rest : List Lexeme) (r : Reading α) :
    ({ s with rest := rest } : Session).follow r = s.follow r := by
  cases r with
  | ok q => rfl
  | error x => rfl

/-- On no level, all levels of the limit are left. -/
theorem expression_lowest_run {s : Session} (hdepth : s.depth = 0) :
    (expression .lowest).run s = s.follow (Expression.parse s.settings.maxDepth s.rest) := by
  rw [expression_run, hdepth]
  rfl

theorem binding_run (token : Token) {s : Session} (hdepth : s.depth = 0) :
    (binding token).run s =
      s.follow (Statement.readBinding s.settings.maxDepth token s.rest) := by
  apply run_bind_of_follow (expect_run .name s)
  intro name rest
  rw [← follow_rest s rest]
  apply run_bind_of_follow (expect_run (.operator .assign) _)
  intro sign rest'
  rw [← follow_rest _ rest']
  exact run_bind_of_follow (expression_lowest_run hdepth) fun _ _ => rfl

theorem returning_run (token : Token) {s : Session} (hdepth : s.depth = 0) :
    (returning token).run s =
      s.follow (Statement.readReturning s.settings.maxDepth token s.rest) :=
  run_bind_of_follow (expression_lowest_run hdepth) fun _ _ => rfl

theorem plain_run (token : Token) {s : Session} (hdepth : s.depth = 0) :
    (plain token).run s =
      s.follow (Statement.readExpression s.settings.maxDepth token s.rest) :=
  run_bind_of_follow (expression_lowest_run hdepth) fun _ _ => rfl

theorem body_run {s : Session} (hdepth : s.depth = 0) {t : Lexeme} {ts : List Lexeme}
    (hrest : s.rest = t :: ts) :
    (body t).run s = s.follow (Statement.parse s.settings.maxDepth t ts) := by
  rw [body]
  split
  · rename_i hlet
    rw [Statement.parse, hlet, run_skip_bind, hrest, List.tail_cons, ← follow_rest s ts]
    exact binding_run t.token hdepth
  · rename_i hreturn
    rw [Statement.parse, hreturn, run_skip_bind, hrest, List.tail_cons, ← follow_rest s ts]
    exact returning_run t.token hdepth
  · rename_i hlet hreturn
    have hopens : t.kind.opensStatement = false := by
      rw [← Bool.not_eq_true, TokenKind.opensStatement_iff, not_or]
      exact ⟨hlet, hreturn⟩
    rw [Statement.parse_of_not_opensStatement _ hopens, ← hrest]
    exact plain_run t.token hdepth

/-- **A statement that is begun on no level** is returned with the semicolon behind it gone, or it
is given up at the offending lexeme with its one error. -/
theorem statement_run {s : Session} (hdepth : s.depth = 0) {t : Lexeme} {ts : List Lexeme}
    (hrest : s.rest = t :: ts) :
    statement.run s =
      match Statement.parse s.settings.maxDepth t ts with
      | .ok (x, rest) => s.follow (.ok (x, Statement.dropSemicolon rest))
      | .error f => s.follow (.error f) := by
  have hbody := body_run hdepth hrest
  rw [statement, run_front_bind, hrest]
  cases hp : Statement.parse s.settings.maxDepth t ts with
  | ok q =>
    rw [hp] at hbody
    exact (run_bind_of_ok _ hbody).trans (run_semicolon_bind _ _)
  | error f =>
    rw [hp] at hbody
    exact run_bind_of_error _ hbody

/-- What a try at a statement returns is the statement that the attempt gives. -/
theorem statement_run_fst {s : Session} (hdepth : s.depth = 0) {t : Lexeme} {ts : List Lexeme}
    (hrest : s.rest = t :: ts) :
    (statement.run s).1 =
      Parse.statement? (Statement.attempt s.settings.maxDepth s.stop t ts).outcome := by
  rw [statement_run hdepth hrest, Statement.attempt]
  cases Statement.parse s.settings.maxDepth t ts with
  | ok q => rfl
  | error x => rfl

/-! ## Turns -/

theorem recover_follow_error (s : Session) (x : Failure) :
    (s.follow (.error x : Reading Statement)).2.recover =
      { s with rest := x.resume, errors := s.errors ++ [x.error s.stop] } := by
  simp only [follow, recover, List.getLast?_append, List.getLast?_singleton, Option.some_or]
  rfl

/-- **A turn that is begun on no level** is one attempt at a statement. -/
theorem next_eq {s : Session} (hdepth : s.depth = 0) {t : Lexeme} {ts : List Lexeme}
    (hrest : s.rest = t :: ts) :
    s.next = { s with
      rest := (Statement.attempt s.settings.maxDepth s.stop t ts).rest
      errors := s.errors ++
        (Parse.error? (Statement.attempt s.settings.maxDepth s.stop t ts).outcome).toList } := by
  have hrun := statement_run hdepth hrest
  rw [next, hrest]
  cases hp : Statement.parse s.settings.maxDepth t ts with
  | ok q =>
    obtain ⟨x, rest⟩ := q
    rw [hp] at hrun
    rw [hrun, Statement.attempt_of_parse_eq_ok s.stop hp]
    simp only [follow, Parse.error?, Option.toList_none, List.append_nil]
  | error x =>
    rw [hp] at hrun
    rw [hrun, Statement.attempt_of_parse_eq_error s.stop hp]
    exact recover_follow_error s x

end Session

end MonkeyLang
