import MonkeyLang.Proofs.Bookkeeping
import MonkeyLang.Proofs.Extent
import MonkeyLang.Proofs.Interleaving

/-!
# Every turn gets on

Parsing is loops within loops: over the statements of a text, over the operators of an expression, and
over what is left of a statement that failed.  None of them counts down to anything, so that they end
has to be shown.  `Session.Loops` tells of a loop that its turns come to an end, after how many of them,
and with what.  All three loops end for one reason (`Session.loops_of_advances`): a turn that is not the
last takes a lexeme off the text.

Of the loop over operators and of the one behind a failure this is plain.  A turn of the loop over the
statements is an attempt, which may fail at its first lexeme, and then recovery may stop where the
failure was; but not both, since what recovery stops at in its first turn begins a statement and is not
the first lexeme of the attempt (`Failure.skipFailed_stand`).

An attempt that finds something other than the token that it expects has looked one lexeme ahead, so the
loop behind the failure begins one lexeme before the offending one (`Failure.stand`).  That makes no
difference to where it ends, which is where `Failure.resume` has it.
-/

namespace MonkeyLang

/-! ## Recovery as a loop -/

theorem InOrder.start_lt_start {t u : Token} {ts : List Token} (h : InOrder (t :: ts))
    (hu : u ∈ ts) : t.span.start < u.span.start :=
  Nat.lt_of_lt_of_le (h.start_lt_stop t List.mem_cons_self)
    ((List.pairwise_cons.1 h.pairwise).1 u hu)

/-- Past the place of the failure, any statement and any line ends what is left. -/
theorem skipFailed_of_forall_lt {begun failed : Nat} (hle : begun ≤ failed) {ts : List Lexeme}
    (h : ∀ t ∈ ts, failed < t.token.span.start) :
    skipFailed begun failed ts = skipStatement ts := by
  induction ts with
  | nil => rfl
  | cons t ts ih =>
    have ht := h t List.mem_cons_self
    have hne : t.token.span.start ≠ begun := by omega
    rw [skipFailed, skipStatement, ih fun u hu => h u (List.mem_cons_of_mem t hu)]
    simp only [ht, hne, ne_eq, not_false_eq_true, and_true, true_and, Bool.or_eq_true]

/-- The first turn of the loop behind a failure: a line break before it does not matter. -/
theorem skipFailed_cons {begun : Nat} {u : Lexeme} {us : List Lexeme}
    (hle : begun ≤ u.token.span.start) (h : InOrder ((u :: us).map (·.token))) :
    skipFailed begun u.token.span.start (u :: us) =
      if u.kind = .semicolon then us
      else if u.kind.opensStatement ∧ u.token.span.start ≠ begun then u :: us
      else skipStatement us := by
  have hus : skipFailed begun u.token.span.start us = skipStatement us := by
    apply skipFailed_of_forall_lt hle
    intro v hv
    exact h.start_lt_start (List.mem_map_of_mem hv)
  rw [skipFailed, hus]
  simp only [Nat.lt_irrefl, false_and, or_false]

/-- What an attempt stands at when it fails to find the token that it expects: a lexeme before the
offending one that no statement ends with, and none begins with but the one that has failed. -/
theorem Statement.exists_stand_of_isExpectation {limit : Nat} {t : Lexeme} {ts : List Lexeme}
    {x : Failure} (h : parse limit t ts = .error x) (hx : x.problem.isExpectation) :
    ∃ u, x.stand (t :: ts) = u :: x.rest ∧ u :: x.rest <:+ t :: ts ∧ u.kind ≠ .semicolon ∧
      (u.kind.opensStatement → u = t) := by
  have hrefused {us : List Lexeme} (he : Expression.parse limit us = .error x) : False := by
    rw [(Expression.refused_of_parse_eq_error he).2] at hx
    cases hx
  rw [Failure.stand, if_pos hx]
  unfold parse at h
  split at h
  · rename_i hlet
    rcases readBinding_eq_error_iff.1 h with h | ⟨n, us, rfl, hn, h | ⟨a, vs, rfl, -, h⟩⟩
    · obtain ⟨rfl, -⟩ := expect_eq_error_iff.1 h
      refine ⟨t, ?_, List.suffix_rfl, by rw [hlet]; decide, fun _ => rfl⟩
      rw [List.length_cons, Nat.sub_self, List.drop_zero]
    · obtain ⟨rfl, -⟩ := expect_eq_error_iff.1 h
      refine ⟨n, ?_, List.suffix_cons t (n :: us), by rw [hn]; decide, ?_⟩
      · rw [List.length_cons, List.length_cons, Nat.add_sub_cancel_left, List.drop_one,
          List.tail_cons]
      · rw [hn]
        intro hopens
        cases hopens
    · exact (hrefused h).elim
  · exact (hrefused (readReturning_eq_error_iff.1 h)).elim
  · exact (hrefused (readExpression_eq_error_iff.1 h)).elim

/-- **The loop behind a failure ends where the next attempt begins.** -/
theorem Failure.skipFailed_stand {limit : Nat} {t : Lexeme} {ts : List Lexeme} {x : Failure}
    (h : Statement.parse limit t ts = .error x) (ho : InOrder ((t :: ts).map (·.token)))
    {failed : Nat} (hfailed : ∀ u ∈ (x.stand (t :: ts)).head?, u.token.span.start = failed) :
    skipFailed t.token.span.start failed (x.stand (t :: ts)) = x.resume := by
  have hfirst {u : Lexeme} {us : List Lexeme} (hs : u :: us <:+ t :: ts) :
      t.token.span.start ≤ u.token.span.start ∧ InOrder ((u :: us).map (·.token)) := by
    refine ⟨?_, ho.sublist (hs.map (·.token)).sublist⟩
    rcases List.mem_cons.1 (hs.subset List.mem_cons_self) with rfl | hu
    · exact Nat.le_refl _
    · exact Nat.le_of_lt (ho.start_lt_start (List.mem_map_of_mem hu))
  by_cases hx : x.problem.isExpectation
  · obtain ⟨u, hstand, hs, hsemicolon, hopens⟩ := Statement.exists_stand_of_isExpectation h hx
    obtain ⟨hle, hrow⟩ := hfirst hs
    rw [hstand] at hfailed ⊢
    obtain rfl := hfailed u rfl
    rw [skipFailed_cons hle hrow, if_neg hsemicolon, if_neg, resume, if_pos hx]
    rintro ⟨hu, hne⟩
    rw [hopens hu] at hne
    exact hne rfl
  · have hs := Statement.rest_suffix_of_parse_eq_error h
    rw [stand, if_neg hx] at hfailed ⊢
    rw [resume, if_neg hx]
    cases hrest : x.rest with
    | nil => rfl
    | cons u us =>
      rw [hrest] at hfailed hs
      obtain ⟨hle, hrow⟩ := hfirst hs
      obtain rfl := hfailed u rfl
      have hbehind (hu : u.kind.opensStatement) : u.token.span.start ≠ t.token.span.start := by
        -- The first lexeme of the attempt cannot be both refused and one that opens a statement.
        rcases List.suffix_cons_iff.1 hs with heq | hsuffix
        · obtain ⟨rfl, rfl⟩ := List.cons.inj heq
          have hsuffix := Statement.rest_suffix_of_opensStatement hu h
          rw [hrest] at hsuffix
          exact absurd hsuffix.length_le (by rw [List.length_cons]; omega)
        · have hmem := hsuffix.subset List.mem_cons_self
          exact Nat.ne_of_gt (ho.start_lt_start (List.mem_map_of_mem hmem))
      rw [skipFailed_cons hle hrow, skipRefused]
      simp only [and_iff_left_of_imp hbehind]

/-! ## Counting tokens -/

/-- The tokens of a text that are not its end are its lexemes. -/
theorem countP_tokens (source : String) :
    (tokens source).countP (·.kind ≠ .endOfText) = (Cursor.ofString source).lexemes.length := by
  have hall : ∀ t ∈ (Cursor.ofString source).lexemes.map (·.token),
      decide (t.kind ≠ .endOfText) = true := by
    intro t ht
    obtain ⟨u, hu, rfl⟩ := List.mem_map.1 ht
    exact decide_eq_true (Cursor.kind_ne_endOfText_of_mem_lexemes hu)
  rw [tokens_eq_append, List.countP_append, List.countP_eq_length.2 hall, List.length_map]
  rfl

/-- There are no more statements and errors than lexemes. -/
theorem length_statements_add_length_errors_le (source : String) (settings : Settings) :
    (parse source settings).program.statements.length + (parse source settings).errors.length ≤
      (Cursor.ofString source).lexemes.length := by
  rw [parse_eq_ofOutcomes_start, Parse.length_add_length_ofOutcomes]
  exact Program.length_outcomes_le _ _ _

namespace Session

variable {α β : Type}

/-! ## Loops -/

/-- The turns of a loop come to an end after `n` of them.  A turn may fail, and the loop with it; it may
end the loop with a result; or the loop goes on from what the turn returns. -/
inductive Loops (body : α → Part (α ⊕ β)) : Nat → α → Session → Option β × Session → Prop
  | failed {a : α} {s s' : Session} : (body a).run s = (none, s') → Loops body 1 a s (none, s')
  | ended {a : α} {b : β} {s s' : Session} :
      (body a).run s = (some (.inr b), s') → Loops body 1 a s (some b, s')
  | again {n : Nat} {a a' : α} {s s' : Session} {r : Option β × Session} :
      (body a).run s = (some (.inl a'), s') → Loops body n a' s' r → Loops body (n + 1) a s r

/-- A turn from a session with `inv` fails or ends the loop, as `out` has it; or it takes a lexeme off
the text, keeps `inv`, and `out` has of the loop what it has of the rest of the loop. -/
def Advances (body : α → Part (α ⊕ β)) (inv : Session → Prop)
    (out : α → Session → Option β × Session) : Prop :=
  ∀ a s, inv s →
    (∃ s', (body a).run s = (none, s') ∧ out a s = (none, s')) ∨
    (∃ b s', (body a).run s = (some (.inr b), s') ∧ out a s = (some b, s')) ∨
    ∃ a' s', (body a).run s = (some (.inl a'), s') ∧ s'.rest.length < s.rest.length ∧ inv s' ∧
      out a s = out a' s'

/-- **A loop ends whose turns take a lexeme each:** there is one turn more than lexemes at most. -/
theorem loops_of_advances {body : α → Part (α ⊕ β)} {inv : Session → Prop}
    {out : α → Session → Option β × Session} (h : Advances body inv out) (a : α) (s : Session)
    (hs : inv s) : ∃ n ≤ s.rest.length + 1, Loops body n a s (out a s) := by
  induction hl : s.rest.length using Nat.strongRecOn generalizing a s with
  | ind l ih =>
    rcases h a s hs with ⟨s', hrun, hout⟩ | ⟨b, s', hrun, hout⟩ | ⟨a', s', hrun, hlt, hs', hout⟩
    · rw [hout]
      exact ⟨1, by omega, .failed hrun⟩
    · rw [hout]
      exact ⟨1, by omega, .ended hrun⟩
    · obtain ⟨n, hn, hloop⟩ := ih s'.rest.length (by omega) a' s' hs' rfl
      rw [hout]
      exact ⟨n + 1, by omega, .again hrun hloop⟩

/-! ## The loop over operators -/

/-- What the loop over the operators behind `left` comes to. -/
def extended (p : Precedence) (left : Expression) (s : Session) : Option Expression × Session :=
  s.follow (Expression.extend (Expression.reader s.settings.maxDepth
    (s.settings.maxDepth - s.depth)) p left s.rest)

theorem extension_advances (stray : Expression → Part Expression) (p : Precedence) :
    Advances (extension stray expression p) (fun _ => True) (extended p) := by
  intro left s _
  by_cases hhalt : Expression.HaltsAt p s.rest
  · refine Or.inr (Or.inl ⟨left, s, extension_of_haltsAt stray expression left hhalt, ?_⟩)
    rw [extended, Expression.extend_of_haltsAt _ left hhalt, follow_ok_rest]
  · obtain ⟨t, ts, hrest, ht⟩ := Expression.exists_cons_of_not_haltsAt hhalt
    have hturn := extension_of_lt stray expression left hrest ht
    have hright := expression_performs s.settings.maxDepth (s.settings.maxDepth - s.depth)
      t.kind.precedence { s with rest := ts } rfl rfl
    cases hr : (Expression.reader s.settings.maxDepth
        (s.settings.maxDepth - s.depth)).read t.kind.precedence ts with
    | error x =>
      rw [hr] at hright
      rw [run_bind_of_error _ hright] at hturn
      refine Or.inl ⟨_, hturn, ?_⟩
      rw [extended, hrest, Expression.extend_cons_error _ left ht hr]
      rfl
    | ok q =>
      obtain ⟨right, rest⟩ := q
      have hlt := (Expression.reader _ _).rest_length_lt hr
      rw [hr] at hright
      rw [run_bind_of_ok _ hright] at hturn
      refine Or.inr (Or.inr ⟨_, _, hturn, ?_, trivial, ?_⟩)
      · rw [hrest]
        exact Nat.lt_succ_of_lt hlt
      · rw [extended, hrest, Expression.extend_cons _ left ht hr]
        rfl

/-- **The loop over operators ends,** with what an expression has of it. -/
theorem loops_extension (stray : Expression → Part Expression) (p : Precedence)
    (left : Expression) (s : Session) :
    ∃ n ≤ s.rest.length + 1, Loops (extension stray expression p) n left s
      ((extend expression p s.rest.length left).run s) := by
  rw [extend_performs (expression_performs s.settings.maxDepth _) p s.rest.length left s rfl rfl
    (Nat.le_refl _)]
  exact loops_of_advances (extension_advances stray p) left s trivial

/-! ## The loop behind a failure -/

/-- What the loop behind a failure comes to. -/
def recovered (begun failed : Nat) (_ : Unit) (s : Session) : Option Unit × Session :=
  (some (), { s with rest := skipFailed begun failed s.rest })

theorem recovering_advances (begun failed : Nat) :
    Advances (recovering begun failed) (fun _ => True) (recovered begun failed) := by
  intro _ s _
  rw [recovering, run_front_bind, recovered]
  cases hrest : s.rest with
  | nil =>
    refine Or.inr (Or.inl ⟨(), s, rfl, ?_⟩)
    rw [skipFailed, ← hrest]
  | cons t ts =>
    rw [skipFailed]
    simp only [List.head?_cons]
    by_cases hsemicolon : t.kind = .semicolon
    · rw [if_pos hsemicolon, if_pos hsemicolon, run_skip_bind, hrest]
      exact Or.inr (Or.inl ⟨(), _, rfl, rfl⟩)
    · rw [if_neg hsemicolon, if_neg hsemicolon]
      split
      · rw [← hrest]
        exact Or.inr (Or.inl ⟨(), s, rfl, rfl⟩)
      · rw [run_skip_bind, hrest]
        exact Or.inr (Or.inr ⟨(), _, rfl, Nat.lt_succ_self _, trivial, rfl⟩)

/-- **The loop behind a failure ends,** from wherever it begins. -/
theorem loops_recovering (begun failed : Nat) (s : Session) :
    ∃ n ≤ s.rest.length + 1, Loops (recovering begun failed) n () s
      (some (), { s with rest := skipFailed begun failed s.rest }) :=
  loops_of_advances (recovering_advances begun failed) () s trivial

/-- **Behind a try that has failed,** the loop ends with the session of the next turn. -/
theorem loops_recovering_stuck {s : Session} (hdepth : s.depth = 0) (hrest : s.rest ≠ [])
    (ho : InOrder (s.rest.map (·.token))) (hfails : (statement.run s).1 = none) :
    ∃ n ≤ s.stuck.rest.length + 1, Loops (recovering s.place s.stuck.place) n () s.stuck
      (some (), s.next) := by
  obtain ⟨t, ts, hts⟩ := List.exists_cons_of_ne_nil hrest
  have hrun := statement_run hdepth hts
  cases hp : Statement.parse s.settings.maxDepth t ts with
  | ok q =>
    rw [hp] at hrun
    rw [hrun] at hfails
    cases hfails
  | error x =>
    rw [hp] at hrun
    have hstuck : s.stuck = { s with
        rest := x.stand (t :: ts), errors := s.errors ++ [x.error s.stop] } := by
      rw [stuck, hrun]
      simp only [follow, List.getLast?_append, List.getLast?_singleton, Option.some_or, hts]
      rfl
    have hnext : s.next = { s.stuck with rest := x.resume } := by
      rw [next_eq hdepth hts, Statement.attempt_of_parse_eq_error s.stop hp, hstuck]
      rfl
    have hplace : s.place = t.token.span.start := by rw [place, hts]
    have hresume : skipFailed s.place s.stuck.place s.stuck.rest = x.resume := by
      rw [hts] at ho
      rw [hplace, hstuck]
      apply Failure.skipFailed_stand hp ho
      intro u hu
      obtain ⟨us, hus⟩ := List.head?_eq_some_iff.1 hu
      rw [place, hus]
    rw [hnext, ← hresume]
    exact loops_recovering s.place s.stuck.place s.stuck

/-! ## The loop over the statements of a text -/

/-- What the loop over a text comes to. -/
def concluded (statements : List Statement) (s : Session) :
    Option (List Statement) × Session :=
  (some (statements ++ s.outcomes.filterMap Parse.statement?),
    { s with rest := [], errors := s.errors ++ s.outcomes.filterMap Parse.error? })

/-- A turn gives what the try at a statement gives, and leaves the session of the next turn. -/
theorem turn_run {s : Session} (hrest : s.rest ≠ []) (statements : List Statement) :
    (turn statements).run s =
      (some (.inl (statements ++ (statement.run s).1.toList)), s.next) := by
  obtain ⟨t, ts, hts⟩ := List.exists_cons_of_ne_nil hrest
  rw [next]
  simp only [turn, hts]
  cases hrun : statement.run s with
  | mk x s' =>
    cases x with
    | none => simp
    | some x => rfl

/-- A turn gets past the lexeme with which it begins. -/
theorem next_rest_suffix {s : Session} (hdepth : s.depth = 0) {t : Lexeme} {ts : List Lexeme}
    (hts : s.rest = t :: ts) : s.next.rest <:+ ts ∧ s.next.stop = s.stop := by
  rw [next_eq hdepth hts]
  exact ⟨Statement.attempt_rest_suffix s.settings.maxDepth s.stop t ts, rfl⟩

/-- What is found in a list is found at its head or behind. -/
theorem filterMap_eq_append_tail (f : α → Option β) (l : List α) :
    l.filterMap f = (l.head?.bind f).toList ++ l.tail.filterMap f := by
  cases l with
  | nil => rfl
  | cons a l => cases h : f a <;> simp [h]

theorem turn_advances : Advances turn (·.depth = 0) concluded := by
  intro statements s hdepth
  cases hrest : s.rest with
  | nil =>
    refine Or.inr (Or.inl ⟨statements, s, ?_, ?_⟩)
    · simp only [turn, hrest]
    · rw [concluded, outcomes_of_rest_eq_nil hrest, ← hrest]
      simp
  | cons t ts =>
    have hne : s.rest ≠ [] := by
      rw [hrest]
      exact List.cons_ne_nil t ts
    obtain ⟨hsuffix, hstop⟩ := next_rest_suffix hdepth hrest
    obtain ⟨⟨hnext, hsettings⟩, houtcomes, herrors, hstatement⟩ := next_takes_outcome hdepth
    have hlt : s.next.rest.length < (t :: ts).length := Nat.lt_succ_of_le hsuffix.length_le
    refine Or.inr (Or.inr ⟨_, s.next, turn_run hne statements, hlt, hnext, ?_⟩)
    rw [concluded, concluded, houtcomes, herrors, hstatement,
      filterMap_eq_append_tail Parse.statement? s.outcomes,
      filterMap_eq_append_tail Parse.error? s.outcomes, ← List.append_assoc, ← List.append_assoc,
      hnext, hsettings, hstop, ← hdepth]

/-- **The loop over a text ends,** with the statements and the errors of what is left. -/
theorem loops_turn {s : Session} (hdepth : s.depth = 0) (statements : List Statement) :
    ∃ n ≤ s.rest.length + 1, Loops turn n statements s (concluded statements s) :=
  loops_of_advances turn_advances statements s hdepth

/-- No turn goes back, and none changes where the text ends. -/
theorem iterate_next_rest_suffix {s : Session} (hdepth : s.depth = 0) (n : Nat) :
    (next^[n] s).rest <:+ s.rest ∧ (next^[n] s).stop = s.stop := by
  induction n with
  | zero => exact ⟨List.suffix_rfl, rfl⟩
  | succ n ih =>
    obtain ⟨hsuffix, hstop⟩ := ih
    rw [Function.iterate_succ_apply']
    cases hrest : (next^[n] s).rest with
    | nil =>
      rw [next_of_rest_eq_nil hrest]
      exact ⟨hsuffix, hstop⟩
    | cons t ts =>
      obtain ⟨hnext, hnextStop⟩ := next_rest_suffix (iterate_next_depth hdepth n).1 hrest
      rw [hrest] at hsuffix
      exact ⟨(hnext.trans (List.suffix_cons t ts)).trans hsuffix, hnextStop.trans hstop⟩

/-- Before the first of the lexemes that are left are as many as have been taken. -/
theorem standsAt_of_suffix {s : Session} {source : String}
    (hrest : s.rest <:+ (Cursor.ofString source).lexemes) (hstop : s.stop = source.utf8ByteSize) :
    s.StandsAt source ((Cursor.ofString source).lexemes.length - s.rest.length) :=
  ⟨List.suffix_iff_eq_drop.1 hrest, hstop⟩

theorem atTurn_rest_suffix (source : String) (settings : Settings) (n : Nat) :
    (atTurn source settings n).rest <:+ (Cursor.ofString source).lexemes ∧
      (atTurn source settings n).stop = source.utf8ByteSize := by
  have hdepth : (start source settings).depth = 0 := rfl
  obtain ⟨hrest, hstop⟩ := iterate_next_rest_suffix hdepth n
  exact ⟨hrest, hstop.trans (Cursor.stop_ofString source)⟩

theorem atTurn_succ (source : String) (settings : Settings) (n : Nat) :
    atTurn source settings (n + 1) = (atTurn source settings n).next :=
  Function.iterate_succ_apply' next n (start source settings)

/-- **Each turn of a session over a text ends at a later token** than that with which it begins, at the
end of the text if at no other. -/
theorem exists_standsAt_atTurn {source : String} {settings : Settings} {n : Nat}
    (hrest : (atTurn source settings n).rest ≠ []) :
    ∃ i j, i < j ∧ j < (tokens source).length ∧ (atTurn source settings n).StandsAt source i ∧
      (atTurn source settings (n + 1)).StandsAt source j := by
  have hdepth : (start source settings).depth = 0 := rfl
  obtain ⟨t, ts, hts⟩ := List.exists_cons_of_ne_nil hrest
  obtain ⟨hsuffix, hstop⟩ := atTurn_rest_suffix source settings n
  obtain ⟨hsuffix', hstop'⟩ := atTurn_rest_suffix source settings (n + 1)
  refine ⟨_, _, ?_, ?_, standsAt_of_suffix hsuffix hstop, standsAt_of_suffix hsuffix' hstop'⟩
  · have hlevel : (atTurn source settings n).depth = 0 := (iterate_next_depth hdepth n).1
    have hturn := (next_rest_suffix hlevel hts).1.length_le
    have hle := hsuffix.length_le
    rw [hts, List.length_cons] at hle ⊢
    rw [atTurn_succ]
    omega
  · rw [tokens_eq_append, List.length_append, List.length_map, List.length_singleton]
    omega

/-- **Parsing ends on every text.**  A turn that does not begin at the end of the text gets to a later
token, whatever becomes of its statement.  The loop over operators ends, for the expression that is asked
for and for all the operands in it, from any place, on any level and with any errors so far.  So does the
loop behind a failure; behind the failure of a turn it ends with the session of the next turn.  The loop
over the text ends with the statements and the errors of the parse, and these are together no more than
the tokens before the end. -/
theorem parse_ends (source : String) (settings : Settings) :
    (∀ n, (atTurn source settings n).rest ≠ [] →
      (∀ ss, ∃ ss', (turn ss).run (atTurn source settings n) =
        (some (.inl ss'), atTurn source settings (n + 1))) ∧
      ∃ i j, i < j ∧ j < (tokens source).length ∧ (atTurn source settings n).StandsAt source i ∧
        (atTurn source settings (n + 1)).StandsAt source j) ∧
    (∀ p, expression p = nested (above expression p) ∧
      ∀ stray left s, ∃ m ≤ s.rest.length + 1, Loops (extension stray expression p) m left s
        ((extend expression p s.rest.length left).run s)) ∧
    (∀ begun failed s, ∃ m ≤ s.rest.length + 1, Loops (recovering begun failed) m () s
      (some (), { s with rest := skipFailed begun failed s.rest })) ∧
    (∀ n, (atTurn source settings n).rest ≠ [] →
      (statement.run (atTurn source settings n)).1 = none →
      let stuck := (atTurn source settings n).stuck
      ∃ m ≤ stuck.rest.length + 1,
        Loops (recovering (atTurn source settings n).place stuck.place) m () stuck
          (some (), atTurn source settings (n + 1))) ∧
    (∃ m ≤ (tokens source).length, ∃ s, Loops turn m [] (start source settings)
        (some (parse source settings).program.statements, s) ∧
      s.rest = [] ∧ s.errors = (parse source settings).errors) ∧
    (parse source settings).program.statements.length + (parse source settings).errors.length ≤
      (tokens source).countP (·.kind ≠ .endOfText) := by
  have hdepth : (start source settings).depth = 0 := rfl
  refine ⟨?_, ?_, loops_recovering, ?_, ?_, ?_⟩
  · intro n hrest
    refine ⟨?_, exists_standsAt_atTurn hrest⟩
    intro ss
    rw [turn_run hrest ss, atTurn_succ]
    exact ⟨_, rfl⟩
  · intro p
    refine ⟨expression_eq_nested_above p, ?_⟩
    intro stray left s
    exact loops_extension stray p left s
  · intro n hrest hfails
    obtain ⟨hsuffix, -⟩ := atTurn_rest_suffix source settings n
    have ho : InOrder ((atTurn source settings n).rest.map (·.token)) :=
      (Cursor.ofString source).inOrder_lexemes.sublist (hsuffix.map (·.token)).sublist
    rw [atTurn_succ]
    exact loops_recovering_stuck (iterate_next_depth hdepth n).1 hrest ho hfails
  · obtain ⟨m, hm, hloop⟩ := loops_turn hdepth []
    refine ⟨m, Nat.le_trans hm ?_, _, hloop, rfl, List.nil_append _⟩
    rw [tokens_eq_append, List.length_append, List.length_map]
    exact Nat.le_refl _
  · rw [countP_tokens]
    exact length_statements_add_length_errors_le source settings

end Session

end MonkeyLang
