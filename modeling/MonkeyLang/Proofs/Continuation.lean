import Mathlib.Data.List.Basic
import MonkeyLang.Proofs.Inclusion

/-!
# A stream with another behind it

What the attempts at a stream come to when a second stream is put behind it.  Two things decide.

How far an attempt reads: a reading that leaves some of the first stream does not look at the second
(`Statement.parse_append_of_left_ne_nil`), and one that leaves nothing ends there all the same if the
second begins with a barrier.

How far recovery goes: over the seam, it stops at once where the second stream `StopsRecovery`.  Only a
semicolon at its head is still taken, by a statement that the first stream leaves open
(`carryOver`).

One attempt is `Statement.attempt_append`, all attempts are `Program.outcomes_append`: first those at
the first stream, an error at its end being at the head of the second now, then those at the second.
-/

namespace MonkeyLang

/-! ## Readings that end before the seam -/

section Readings

variable {us : List Lexeme}

theorem Reading.embed_id_ok {α : Type} (a : α) (rest : List Lexeme) :
    Reading.embed id id us (.ok (a, rest)) = .ok (a, rest ++ us) := by
  rw [Reading.embed, embed_id, id]

theorem Reading.embed_id_error {α : Type} (x : Failure) :
    Reading.embed (id : α → α) id us (.error x) = .error ⟨x.problem, x.rest ++ us⟩ := by
  rw [Reading.embed, Failure.embed, embed_id]

namespace Expression

/-- A reader that does not look behind a stream of which it leaves some. -/
def OperandReader.Local (r : OperandReader) (us : List Lexeme) : Prop :=
  ∀ p ts, Reading.left (r.read p ts) ≠ [] →
    r.read p (ts ++ us) = Reading.embed id id us (r.read p ts)

theorem readPrimary_append {deeper : OperandReader} (hd : deeper.Local us) (ts : List Lexeme)
    (h : Reading.left (readPrimary deeper ts) ≠ []) :
    readPrimary deeper (ts ++ us) = Reading.embed id id us (readPrimary deeper ts) := by
  cases ts with
  | nil => exact absurd rfl h
  | cons t ts =>
    rw [List.cons_append]
    cases hb : t.kind.beginsOperand with
    | false =>
      rw [readPrimary_cons_refused deeper hb, readPrimary_cons_refused deeper hb,
        Reading.embed_id_error, List.cons_append]
    | true =>
      rcases TokenKind.beginsOperand_iff.1 hb with hk | hk | hu
      · rw [readPrimary_name deeper hk, readPrimary_name deeper hk, Reading.embed_id_ok]
      · simp only [readPrimary, hk]
        cases Numeral.read? t.token.literal.toList with
        | none => rw [Reading.embed_id_error, List.cons_append]
        | some n => rw [Reading.embed_id_ok]
      · rw [readPrimary_cons_unary deeper hu] at h
        rw [readPrimary_cons_unary deeper hu, readPrimary_cons_unary deeper hu]
        cases hr : deeper.read .unary ts with
        | ok r =>
          rw [hr] at h
          rw [hd _ ts (by rwa [hr]), hr, Reading.embed_id_ok, Reading.embed_id_ok]
        | error x =>
          rw [hr] at h
          rw [hd _ ts (by rwa [hr]), hr, Reading.embed_id_error]

theorem extend_append {deeper : OperandReader} (hd : deeper.Local us) {p : Precedence}
    {left : Expression} {ts : List Lexeme} (h : Reading.left (extend deeper p left ts) ≠ []) :
    extend deeper p left (ts ++ us) = Reading.embed id id us (extend deeper p left ts) := by
  fun_induction extend deeper p left ts with
  | case1 left => exact absurd rfl h
  | case2 left t ts hc right rest hr ih =>
    have hrest : rest ≠ [] := by
      rintro rfl
      rw [extend] at h
      exact h rfl
    have hread := hd t.kind.precedence ts (by rwa [hr])
    rw [hr, Reading.embed_id_ok] at hread
    rw [List.cons_append, extend_cons deeper _ hc.1 hread]
    exact ih h
  | case3 left t ts hc x hr =>
    have hread := hd t.kind.precedence ts (by rwa [hr])
    rw [hr, Reading.embed_id_error] at hread
    rw [List.cons_append, extend_cons_error deeper _ hc.1 hread, Reading.embed_id_error]
  | case4 left t ts hc =>
    rw [List.cons_append, extend_of_haltsAt deeper _ (haltsAt_cons hc _), Reading.embed_id_ok,
      List.cons_append]

theorem reader_local (us : List Lexeme) (limit budget : Nat) : (reader limit budget).Local us := by
  induction budget with
  | zero =>
    intro p ts _
    show Except.error _ = Reading.embed id id us (Except.error _)
    rw [Reading.embed_id_error]
  | succ budget ih =>
    intro p ts h
    show readAbove _ p (ts ++ us) = Reading.embed id id us (readAbove _ p ts)
    have h : Reading.left (readAbove (reader limit budget) p ts) ≠ [] := h
    cases hp : readPrimary (reader limit budget) ts with
    | ok r =>
      obtain ⟨left, rest⟩ := r
      simp only [readAbove, hp] at h ⊢
      -- The loop would leave nothing if the operand before it did.
      have hrest : rest ≠ [] := by
        rintro rfl
        rw [extend] at h
        exact h rfl
      have hprimary := readPrimary_append ih ts (by rwa [hp])
      rw [hp, Reading.embed_id_ok] at hprimary
      rw [hprimary]
      exact extend_append ih h
    | error x =>
      simp only [readAbove, hp] at h ⊢
      have hprimary := readPrimary_append ih ts (by rwa [hp])
      rw [hp, Reading.embed_id_error] at hprimary
      rw [hprimary, Reading.embed_id_error]

theorem parse_append_of_error {limit : Nat} {ts : List Lexeme} {x : Failure}
    (h : parse limit ts = .error x) (hx : x.rest ≠ []) :
    parse limit (ts ++ us) = .error ⟨x.problem, x.rest ++ us⟩ := by
  have hread : (reader limit limit).read .lowest ts = .error x := h
  have happ := reader_local us limit limit .lowest ts (by rwa [hread])
  rwa [hread, Reading.embed_id_error] at happ

end Expression

theorem expect_append_of_error {kind : TokenKind} {ts : List Lexeme} {x : Failure}
    (h : expect kind ts = .error x) (hx : x.rest ≠ []) :
    expect kind (ts ++ us) = .error ⟨x.problem, x.rest ++ us⟩ := by
  obtain ⟨rfl, hne⟩ := expect_eq_error_iff.1 h
  refine expect_eq_error_iff.2 ⟨rfl, ?_⟩
  rwa [List.head?_append_of_ne_nil _ hx]

namespace Statement

theorem readBinding_append_of_error {limit : Nat} {token : Token} {ts : List Lexeme} {x : Failure}
    (h : readBinding limit token ts = .error x) (hx : x.rest ≠ []) :
    readBinding limit token (ts ++ us) = .error ⟨x.problem, x.rest ++ us⟩ := by
  refine readBinding_eq_error_iff.2 ?_
  rcases readBinding_eq_error_iff.1 h with h | ⟨n, us, rfl, hn, h | ⟨a, vs, rfl, ha, h⟩⟩
  · exact Or.inl (expect_append_of_error h hx)
  · exact Or.inr ⟨n, _, rfl, hn, Or.inl (expect_append_of_error h hx)⟩
  · exact Or.inr ⟨n, _, rfl, hn, Or.inr ⟨a, _, rfl, ha, Expression.parse_append_of_error h hx⟩⟩

/-- What is behind a stream makes no difference to a statement that leaves some of the stream. -/
theorem parse_append_of_left_ne_nil {limit : Nat} {t : Lexeme} {ts : List Lexeme}
    (h : Reading.left (parse limit t ts) ≠ []) :
    parse limit t (ts ++ us) = Reading.embed id id us (parse limit t ts) := by
  cases hp : parse limit t ts with
  | ok r =>
    obtain ⟨s, rest⟩ := r
    rw [hp] at h
    have hrest : rest ≠ [] := h
    obtain ⟨row, hrow, hw, hl, hhead⟩ := parse_eq_ok_iff.1 hp
    rw [Reading.embed_id_ok]
    refine parse_eq_ok_iff.2 ⟨row, ?_, hw, hl, ?_⟩
    · rw [← List.cons_append, hrow, List.append_assoc]
    · rwa [List.head?_append_of_ne_nil _ hrest]
  | error x =>
    rw [hp] at h
    have hx : x.rest ≠ [] := h
    rw [Reading.embed_id_error]
    unfold parse at hp ⊢
    split at hp
    · exact readBinding_append_of_error hp hx
    · exact readReturning_eq_error_iff.2
        (Expression.parse_append_of_error (readReturning_eq_error_iff.1 hp) hx)
    · exact readExpression_eq_error_iff.2
        (Expression.parse_append_of_error (readExpression_eq_error_iff.1 hp) hx)

end Statement

end Readings

/-! ## The last lexeme -/

/-- Whether the last lexeme of a stream is there and is no semicolon. -/
def endsOpen (ts : List Lexeme) : Bool := ts.getLast?.any fun t => t.kind != .semicolon

theorem endsOpen_singleton (t : Lexeme) : endsOpen [t] = (t.kind != .semicolon) := rfl

theorem endsOpen_of_suffix {ts rest : List Lexeme} (h : rest <:+ ts) (hne : rest ≠ []) :
    endsOpen rest = endsOpen ts := by
  obtain ⟨pre, rfl⟩ := h
  rw [endsOpen, endsOpen, List.getLast?_append, List.getLast?_eq_some_getLast hne, Option.some_or]

theorem endsOpen_cons (t : Lexeme) {ts : List Lexeme} (h : ts ≠ []) :
    endsOpen (t :: ts) = endsOpen ts :=
  (endsOpen_of_suffix (List.suffix_cons t ts) h).symm

theorem exists_concat_of_not_endsOpen {ts : List Lexeme} (hne : ts ≠ [])
    (h : endsOpen ts = false) : ∃ pre m, ts = pre ++ [m] ∧ m.kind = .semicolon := by
  have hlast := List.dropLast_concat_getLast hne
  refine ⟨ts.dropLast, ts.getLast hne, hlast.symm, ?_⟩
  rw [← hlast, endsOpen, List.getLast?_concat] at h
  simpa using h

/-! ## Recovery over the seam -/

/-- Recovery does not get past the head of the stream, but for a semicolon that is there. -/
def StopsRecovery (us : List Lexeme) : Prop :=
  ∀ u ∈ us.head?, u.kind = .semicolon ∨ u.kind.opensStatement ∨ u.startsLine

/-- The stream is empty, or its first token ends a statement or opens one. -/
def Fresh (us : List Lexeme) : Prop := ∀ u ∈ us.head?, u.kind = .semicolon ∨ u.kind.opensStatement

/-- What is left of `ts ++ us` where `rest` is left of `ts`.  If that is nothing, and a statement is still
open at the end of `ts`, a semicolon at the head of `us` is its end. -/
def carryOver (us ts rest : List Lexeme) : List Lexeme :=
  if rest = [] ∧ endsOpen ts then Statement.dropSemicolon us else rest ++ us

section Recovery

variable {us : List Lexeme}

theorem fresh_cons {u : Lexeme} :
    Fresh (u :: us) ↔ u.kind = .semicolon ∨ u.kind.opensStatement := by
  refine ⟨fun h => h u rfl, fun h v hv => ?_⟩
  cases hv
  exact h

theorem Fresh.stopsRecovery (h : Fresh us) : StopsRecovery us := fun u hu =>
  (h u hu).imp_right Or.inl

theorem Fresh.barred (h : Fresh us) : Barred us := by
  intro u hu
  rcases h u hu with hk | hk
  · rw [hk]
    rfl
  · rcases TokenKind.opensStatement_iff.1 hk with hk | hk
    · rw [hk]
      rfl
    · rw [hk]
      rfl

theorem carryOver_of_ne_nil {ts rest : List Lexeme} (h : rest ≠ []) :
    carryOver us ts rest = rest ++ us := if_neg fun hc => h hc.1

theorem carryOver_of_open {ts : List Lexeme} (h : endsOpen ts) :
    carryOver us ts [] = Statement.dropSemicolon us := if_pos ⟨rfl, h⟩

theorem carryOver_of_closed {ts rest : List Lexeme} (h : endsOpen ts = false) :
    carryOver us ts rest = rest ++ us := if_neg fun hc => by simp [h] at hc

theorem carryOver_of_semicolon {t : Lexeme} (ht : t.kind = .semicolon) (rest : List Lexeme) :
    carryOver us (t :: rest) rest = rest ++ us := by
  cases rest with
  | nil => exact carryOver_of_closed (by rw [endsOpen_singleton, ht]; rfl)
  | cons u rest => exact carryOver_of_ne_nil (List.cons_ne_nil u rest)

theorem carryOver_congr {ts ts' : List Lexeme} (h : endsOpen ts = endsOpen ts')
    (rest : List Lexeme) : carryOver us ts rest = carryOver us ts' rest := by
  rw [carryOver, carryOver, h]

theorem dropSemicolon_append {ts : List Lexeme} (hts : ts ≠ []) :
    Statement.dropSemicolon (ts ++ us) = carryOver us ts (Statement.dropSemicolon ts) := by
  cases ts with
  | nil => exact absurd rfl hts
  | cons t rest =>
    rw [List.cons_append, Statement.dropSemicolon, Statement.dropSemicolon]
    by_cases ht : t.kind = .semicolon
    · rw [if_pos ht, if_pos ht, carryOver_of_semicolon ht]
    · rw [if_neg ht, if_neg ht, carryOver_of_ne_nil (List.cons_ne_nil t rest), List.cons_append]

theorem skipStatement_of_stopsRecovery (hus : StopsRecovery us) :
    skipStatement us = Statement.dropSemicolon us := by
  cases us with
  | nil => rfl
  | cons u us =>
    rw [skipStatement, Statement.dropSemicolon]
    rcases hus u rfl with hu | hu
    · rw [if_pos hu, if_pos hu]
    · rw [if_pos (Bool.or_eq_true_iff.2 hu)]

theorem skipRefused_of_fresh (hus : Fresh us) :
    skipRefused us = Statement.dropSemicolon us := by
  cases us with
  | nil => rfl
  | cons u us =>
    rw [skipRefused, Statement.dropSemicolon]
    rcases hus u rfl with hu | hu
    · rw [if_pos hu, if_pos hu]
    · rw [if_pos hu]

/-- Both ways to skip look at one lexeme and then skip on; `stops` is what makes them stop at it. -/
theorem skip_cons_append (hus : StopsRecovery us) {t : Lexeme} {rest : List Lexeme} (stops : Bool)
    (h : rest ≠ [] → skipStatement (rest ++ us) = carryOver us rest (skipStatement rest)) :
    (if t.kind = .semicolon then rest ++ us
      else if stops then t :: (rest ++ us) else skipStatement (rest ++ us)) =
    carryOver us (t :: rest) (if t.kind = .semicolon then rest
      else if stops then t :: rest else skipStatement rest) := by
  by_cases ht : t.kind = .semicolon
  · rw [if_pos ht, if_pos ht, carryOver_of_semicolon ht]
  · rw [if_neg ht, if_neg ht]
    by_cases hs : stops
    · rw [if_pos hs, if_pos hs, carryOver_of_ne_nil (List.cons_ne_nil t rest), List.cons_append]
    · rw [if_neg hs, if_neg hs]
      cases rest with
      | nil =>
        rw [List.nil_append, skipStatement_of_stopsRecovery hus, skipStatement, carryOver_of_open]
        simpa [endsOpen_singleton] using ht
      | cons u rest =>
        rw [h (List.cons_ne_nil u rest)]
        exact carryOver_congr (endsOpen_cons t (List.cons_ne_nil u rest)).symm _

theorem skipStatement_append (hus : StopsRecovery us) {ts : List Lexeme} (hts : ts ≠ []) :
    skipStatement (ts ++ us) = carryOver us ts (skipStatement ts) := by
  induction ts with
  | nil => exact absurd rfl hts
  | cons t rest ih =>
    rw [List.cons_append, skipStatement, skipStatement]
    exact skip_cons_append hus _ ih

theorem skipRefused_append (hus : StopsRecovery us) {ts : List Lexeme} (hts : ts ≠ []) :
    skipRefused (ts ++ us) = carryOver us ts (skipRefused ts) := by
  cases ts with
  | nil => exact absurd rfl hts
  | cons t rest =>
    rw [List.cons_append, skipRefused, skipRefused]
    exact skip_cons_append hus _ (skipStatement_append hus)

/-- Where the offending lexeme is one of `ts`, recovery is in `ts` as it was. -/
theorem Failure.resume_append (hus : StopsRecovery us) {x : Failure} (hx : x.rest ≠ []) :
    resume ⟨x.problem, x.rest ++ us⟩ = carryOver us x.rest x.resume := by
  obtain ⟨problem, rest⟩ := x
  unfold resume
  rw [skipStatement_append hus hx, skipRefused_append hus hx]
  split <;> rfl

/-- Where the offending lexeme is the head of a fresh stream, no more than a semicolon is skipped. -/
theorem Failure.resume_of_fresh (hus : Fresh us) (problem : Problem) :
    resume ⟨problem, us⟩ = Statement.dropSemicolon us := by
  rw [resume, skipStatement_of_stopsRecovery hus.stopsRecovery, skipRefused_of_fresh hus, ite_self]

end Recovery

/-! ## Errors at the seam -/

/-- The token at the head of a stream, the one for the end of a text of `stop` bytes if it is empty. -/
def headToken (stop : Nat) (us : List Lexeme) : Token :=
  (us.head?.map (·.token)).getD (.endOfText stop)

/-- The error, at `mark` if it was at the end of a text of `stop` bytes. -/
def ParseError.endedBy (stop : Nat) (mark : Token) (e : ParseError) : ParseError :=
  if e.token.span = .point stop then { e with token := mark } else e

/-- The outcome, its error at `mark` if it was at the end of a text of `stop` bytes. -/
def Statement.Outcome.endedBy (stop : Nat) (mark : Token) : Outcome → Outcome
  | .ok s => .ok s
  | .error e => .error (e.endedBy stop mark)

theorem Failure.error_append {x : Failure} {stop : Nat} (stop' : Nat) (us : List Lexeme)
    (hx : ∀ t ∈ x.rest, t.token.span ≠ .point stop) :
    error ⟨x.problem, x.rest ++ us⟩ stop' =
      (x.error stop).endedBy stop (headToken stop' us) := by
  obtain ⟨problem, rest⟩ := x
  cases rest with
  | nil =>
    have hend : (error ⟨problem, []⟩ stop).token.span = .point stop := rfl
    rw [ParseError.endedBy, if_pos hend]
    cases us <;> rfl
  | cons t rest => exact (if_neg (hx t List.mem_cons_self)).symm

/-! ## Attempts at both streams -/

namespace Statement

theorem parse_semicolon {m : Lexeme} (hm : m.kind = .semicolon) (limit : Nat) (us : List Lexeme) :
    parse limit m us = .error ⟨if limit = 0 then .tooDeep 0 else .noOperand, m :: us⟩ := by
  rw [parse, hm]
  refine readExpression_eq_error_iff.2 ?_
  exact Expression.parse_of_barred (barred_cons.2 (by rw [hm]; rfl)) limit

/-- Nothing is read over a semicolon. -/
theorem left_parse_ne_nil {limit : Nat} {t : Lexeme} {ts : List Lexeme}
    (h : endsOpen (t :: ts) = false) : Reading.left (parse limit t ts) ≠ [] := by
  obtain ⟨pre, m, hrow, hm⟩ := exists_concat_of_not_endsOpen (List.cons_ne_nil t ts) h
  cases pre with
  | nil =>
    obtain ⟨rfl, rfl⟩ := List.cons.inj hrow
    rw [parse_semicolon hm]
    exact List.cons_ne_nil t []
  | cons u pre =>
    rw [List.cons_append] at hrow
    obtain ⟨rfl, rfl⟩ := List.cons.inj hrow
    rw [parse_append (barred_cons.2 (by rw [hm]; rfl)), Reading.left_embed, embed_id]
    exact List.append_ne_nil_of_right_ne_nil _ (List.cons_ne_nil m [])

/-- An attempt with a second stream behind comes to what it came to at the end of the first, and leaves
what is behind. -/
theorem attempt_append {limit stop : Nat} (stop' : Nat) {t : Lexeme} {ts us : List Lexeme}
    (hus : StopsRecovery us) (h : Fresh us ∨ Reading.left (parse limit t ts) ≠ [])
    (hts : ∀ u ∈ t :: ts, u.token.span ≠ .point stop) :
    attempt limit stop' t (ts ++ us) =
      ⟨(attempt limit stop t ts).outcome.endedBy stop (headToken stop' us),
        carryOver us (t :: ts) (attempt limit stop t ts).rest⟩ := by
  have happ : parse limit t (ts ++ us) = Reading.embed id id us (parse limit t ts) := by
    rcases h with h | h
    · exact parse_append h.barred limit t ts
    · exact parse_append_of_left_ne_nil h
  have hopen : Reading.left (parse limit t ts) = [] → endsOpen (t :: ts) := by
    intro hnil
    by_contra hc
    exact left_parse_ne_nil (Bool.eq_false_iff.2 hc) hnil
  cases hp : parse limit t ts with
  | ok r =>
    obtain ⟨s, rest⟩ := r
    rw [hp, Reading.embed_id_ok] at happ
    rw [hp] at hopen
    have hsuf := (rest_suffix_of_parse_eq_ok hp).trans (List.suffix_cons t ts)
    rw [attempt_of_parse_eq_ok stop hp, attempt_of_parse_eq_ok stop' happ]
    refine congrArg (Attempt.mk _) ?_
    by_cases hr : rest = []
    · subst hr
      exact (carryOver_of_open (hopen rfl)).symm
    · rw [dropSemicolon_append hr]
      exact carryOver_congr (endsOpen_of_suffix hsuf hr) _
  | error x =>
    rw [hp, Reading.embed_id_error] at happ
    rw [hp] at hopen h
    have hsuf := rest_suffix_of_parse_eq_error hp
    rw [attempt_of_parse_eq_error stop hp, attempt_of_parse_eq_error stop' happ,
      Failure.error_append stop' us fun u hu => hts u (hsuf.subset hu)]
    refine congrArg (Attempt.mk _) ?_
    by_cases hr : x.rest = []
    · have hfresh : Fresh us := h.resolve_right fun hne => hne hr
      have hresume : x.resume = [] := List.suffix_nil.1 (hr ▸ x.resume_suffix)
      rw [hr, List.nil_append, Failure.resume_of_fresh hfresh, hresume]
      exact (carryOver_of_open (hopen hr)).symm
    · rw [Failure.resume_append hus hr]
      exact carryOver_congr (endsOpen_of_suffix hsuf hr) _

end Statement

namespace Program

/-- The last attempt at a stream fails, and no attempt fails at the end of the stream. -/
structure FailsInside (limit stop : Nat) (ts : List Lexeme) : Prop where
  last : ∀ s, .ok s ∉ (outcomes limit stop ts).getLast?
  inside : ∀ e, .error e ∈ outcomes limit stop ts → e.token.span ≠ .point stop

namespace FailsInside

variable {limit stop : Nat} {t : Lexeme} {ts : List Lexeme}

theorem left_ne_nil (h : FailsInside limit stop (t :: ts)) :
    Reading.left (Statement.parse limit t ts) ≠ [] := by
  intro hnil
  cases hp : Statement.parse limit t ts with
  | ok r =>
    obtain ⟨s, rest⟩ := r
    rw [hp] at hnil
    have hrest : rest = [] := hnil
    refine h.last s ?_
    rw [outcomes_cons_of_ok stop hp, hrest]
    show .ok s ∈ (.ok s :: outcomes limit stop []).getLast?
    rw [outcomes_nil]
    rfl
  | error x =>
    obtain ⟨problem, rest⟩ := x
    rw [hp] at hnil
    have hrest : rest = [] := hnil
    subst hrest
    refine h.inside (Failure.error ⟨problem, []⟩ stop) ?_ rfl
    rw [outcomes_cons_of_error stop hp]
    exact List.mem_cons_self

theorem tail (h : FailsInside limit stop (t :: ts)) :
    FailsInside limit stop (Statement.attempt limit stop t ts).rest := by
  obtain ⟨hlast, hinside⟩ := h
  rw [outcomes_cons] at hlast hinside
  refine ⟨fun s hs => hlast s ?_, fun e he => hinside e (List.mem_cons_of_mem _ he)⟩
  rw [List.getLast?_cons, Option.mem_def.1 hs]
  rfl

end FailsInside

/-- All attempts with a second stream behind: those at the first stream and then those at the second, but
for a semicolon that ends the last statement of the first. -/
theorem outcomes_append {limit stop : Nat} (stop' : Nat) {ts us : List Lexeme}
    (hus : StopsRecovery us) (h : Fresh us ∨ FailsInside limit stop ts)
    (hts : ∀ t ∈ ts, t.token.span ≠ .point stop) :
    outcomes limit stop' (ts ++ us) =
      (outcomes limit stop ts).map (Statement.Outcome.endedBy stop (headToken stop' us)) ++
        outcomes limit stop' (if endsOpen ts then Statement.dropSemicolon us else us) := by
  fun_induction outcomes limit stop ts with
  | case1 => rfl
  | case2 t ts ih =>
    have hsuf := Statement.attempt_rest_suffix_cons limit stop t ts
    rw [List.cons_append, outcomes_cons,
      Statement.attempt_append stop' hus (h.imp_right FailsInside.left_ne_nil) hts,
      List.map_cons, List.cons_append]
    refine congrArg _ ?_
    have ih := ih (h.imp_right FailsInside.tail) fun u hu => hts u (hsuf.subset hu)
    generalize (Statement.attempt limit stop t ts).rest = rest at ih hsuf
    -- The attempt used up the first stream or it left some of it.
    by_cases hr : rest = []
    · subst hr
      cases ho : endsOpen (t :: ts) with
      | true =>
        rw [carryOver_of_open ho, outcomes_nil]
        rfl
      | false =>
        rw [carryOver_of_closed ho, outcomes_nil]
        rfl
    · rw [carryOver_of_ne_nil hr, ih, endsOpen_of_suffix hsuf hr]

/-- Only the last error can be at the end of the text. -/
theorem span_ne_of_mem_dropLast_errors (limit : Nat) {stop : Nat} {ts : List Lexeme}
    (hts : ∀ t ∈ ts, t.token.span ≠ .point stop) :
    ∀ e ∈ ((outcomes limit stop ts).filterMap Parse.error?).dropLast,
      e.token.span ≠ .point stop := by
  induction ts using attempts_induction limit with
  | nil =>
    rw [outcomes_nil]
    exact List.forall_mem_nil _
  | ok t ts s rest hp hrest ih =>
    rw [outcomes_cons_of_ok stop hp]
    exact ih fun u hu => hts u (hrest.subset hu)
  | error t ts x hp hrest ih =>
    have hx := Statement.rest_suffix_of_parse_eq_error hp
    rw [outcomes_cons_of_error stop hp]
    show ∀ e ∈ (x.error stop :: (outcomes limit stop x.resume).filterMap Parse.error?).dropLast, _
    intro e he
    by_cases hnil : (outcomes limit stop x.resume).filterMap Parse.error? = []
    · rw [hnil] at he
      cases he
    · rw [List.dropLast_cons_of_ne_nil hnil] at he
      rcases List.mem_cons.1 he with rfl | he
      · obtain ⟨problem, rest⟩ := x
        cases rest with
        | nil =>
          have hresume : Failure.resume ⟨problem, []⟩ = [] :=
            List.suffix_nil.1 (Failure.resume_suffix _)
          rw [hresume, outcomes_nil] at hnil
          exact absurd rfl hnil
        | cons u rest => exact hts u (hx.subset List.mem_cons_self)
      · exact ih (fun u hu => hts u (hrest.subset hu)) e he

end Program

/-! ## Statements and errors -/

theorem Parse.ofOutcomes_append (os os' : List Statement.Outcome) :
    ofOutcomes (os ++ os') = ⟨⟨(ofOutcomes os).program.statements ++
      (ofOutcomes os').program.statements⟩, (ofOutcomes os).errors ++ (ofOutcomes os').errors⟩ := by
  simp only [ofOutcomes, List.filterMap_append]

theorem Parse.filterMap_statement?_endedBy (stop : Nat) (mark : Token)
    (os : List Statement.Outcome) :
    (os.map (Statement.Outcome.endedBy stop mark)).filterMap statement? =
      os.filterMap statement? := by
  have h := filterMap_map_of_comm (h := id)
    (fun o => by cases o <;> rfl : ∀ o, statement? (o.endedBy stop mark) = (statement? o).map id) os
  rw [h, List.map_id]

theorem Parse.filterMap_error?_endedBy (stop : Nat) (mark : Token) (os : List Statement.Outcome) :
    (os.map (Statement.Outcome.endedBy stop mark)).filterMap error? =
      (os.filterMap error?).map (ParseError.endedBy stop mark) :=
  filterMap_map_of_comm (fun o => by cases o <;> rfl) os

theorem Parse.ofOutcomes_map_endedBy (stop : Nat) (mark : Token) (os : List Statement.Outcome) :
    ofOutcomes (os.map (Statement.Outcome.endedBy stop mark)) =
      ⟨(ofOutcomes os).program, (ofOutcomes os).errors.map (ParseError.endedBy stop mark)⟩ := by
  rw [ofOutcomes, filterMap_statement?_endedBy, filterMap_error?_endedBy, ofOutcomes]

theorem Parse.ofOutcomes_map_shift (n : Nat) (os : List Statement.Outcome) :
    ofOutcomes (os.map (Statement.Outcome.mapSpan (.shift n))) =
      ⟨⟨(ofOutcomes os).program.statements.map (Statement.shift n)⟩,
        (ofOutcomes os).errors.map (ParseError.shift n)⟩ :=
  ofOutcomes_map_mapSpan _ os

end MonkeyLang
