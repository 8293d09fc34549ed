import MonkeyLang.Proofs.Coverage
import MonkeyLang.Proofs.Session

/-!
# How far an expression reaches

A session that stands at some token of a text, on any level and with any errors so far, is asked for an
expression that takes only operators above `p`.  It returns one exactly if the tokens from that place up
to some later one are those of a tree that is grouped as precedence has it and needs no more levels than
are left; every operator down the left side of the tree binds above `p`; and the tree could not be
larger, since the token behind it does not bind above `p` (`Session.expression_extent`).

The loop over operators asks two things of the next token: does it bind more tightly than `p`, and is
there a rule for it between operands?  `Session.extension` is one turn of the loop with both questions,
and with a `stray` part for a token that binds without having a rule.  There is no such token, so
whatever that part does, the reader of expressions is the same (`Session.expressionWith_eq`).

A reader is defined by the levels that it has left.  Nothing hangs on this budget: an expression is an
operand on the next level whose own operands are such expressions again
(`Session.expression_eq_nested_above`).
-/

namespace MonkeyLang

/-! ## The left side of a tree -/

namespace Expression

/-- The expression and the left operands inside it, one down from the other. -/
def leftSpine : Expression → List Expression
  | binary left operator right => binary left operator right :: left.leftSpine
  | e => [e]

theorem mem_leftSpine_self (e : Expression) : e ∈ e.leftSpine := by
  cases e <;> exact List.mem_cons_self

/-- In a grouped tree that binds above `p`, so does all of the left side. -/
theorem above_of_mem_leftSpine {p : Precedence} {d e : Expression} (hg : e.Grouped)
    (ha : e.Above p) (hd : d ∈ e.leftSpine) : d.Above p := by
  induction e with
  | binary left operator right ihl =>
    rcases List.mem_cons.1 hd with rfl | hd
    · exact ha
    · exact ihl hg.2.2.1 (Above.left ha hg.1) hd
  | _ =>
    rw [List.mem_singleton.1 hd]
    exact ha

end Expression

namespace Session

/-- The session stands at token `i` of a text.  Past the end of the text, all tokens are its end. -/
structure StandsAt (s : Session) (source : String) (i : Nat) : Prop where
  rest_eq : s.rest = (Cursor.ofString source).lexemes.drop i
  stop_eq : s.stop = source.utf8ByteSize

/-! ## One turn -/

variable {p : Precedence} {s : Session}

/-- The loop ends at a token that it does not take. -/
theorem extension_of_haltsAt (stray : Expression → Part Expression)
    (deeper : Precedence → Part Expression) (left : Expression)
    (h : Expression.HaltsAt p s.rest) :
    (extension stray deeper p left).run s = (some (.inr left), s) := by
  rw [extension, run_front_bind]
  cases hrest : s.rest with
  | nil => rfl
  | cons t ts =>
    rw [hrest] at h
    have hle : t.kind.precedence ≤ p := h t rfl
    simp only [List.head?_cons]
    rw [if_neg]
    · rfl
    · rintro ⟨-, hlt⟩
      exact Nat.not_lt.2 hle hlt

/-- A token that binds above `p` is no semicolon, and there is a rule for it: the loop goes past it
and takes an operand more. -/
theorem extension_of_lt (stray : Expression → Part Expression)
    (deeper : Precedence → Part Expression) (left : Expression) {t : Lexeme} {ts : List Lexeme}
    (hrest : s.rest = t :: ts) (ht : p < t.kind.precedence) :
    (extension stray deeper p left).run s =
      (deeper t.kind.precedence >>= fun right =>
        (return .inl (.binary left t.token right) : Part (Expression ⊕ Expression))).run
          { s with rest := ts } := by
  have hsemicolon : t.kind ≠ .semicolon := by
    intro hk
    rw [hk] at ht
    exact absurd ht (Nat.not_lt_zero _)
  rw [extension, run_front_bind, hrest]
  simp only [List.head?_cons]
  rw [if_pos ⟨hsemicolon, ht⟩, if_pos (Expression.isBinary_of_lt ht), run_skip_bind, hrest,
    List.tail_cons]

/-! ## The branch that nothing reaches -/

/-- By induction on the number of turns.  The turns of the two loops are the same, and the branch that
one of them has besides is not among them. -/
theorem extendWith_eq (stray : Expression → Part Expression)
    (deeper : Precedence → Part Expression) (p : Precedence) (n : Nat) (left : Expression) :
    extendWith stray deeper p n left = extend deeper p n left := by
  induction n generalizing left with
  | zero => rfl
  | succ n ih =>
    apply Part.ext
    intro s
    rw [extendWith]
    by_cases hhalt : Expression.HaltsAt p s.rest
    · rw [run_bind_some _ (extension_of_haltsAt stray deeper left hhalt),
        extend_succ_of_haltsAt deeper n left hhalt]
      rfl
    · obtain ⟨t, ts, hrest, ht⟩ := Expression.exists_cons_of_not_haltsAt hhalt
      have hturn := extension_of_lt stray deeper left hrest ht
      rw [extend_succ_of_lt deeper n left hrest ht]
      cases hd : (deeper t.kind.precedence).run { s with rest := ts } with
      | mk a s' =>
        cases a with
        | none =>
          rw [run_bind_none _ hd] at hturn
          rw [run_bind_none _ hturn, run_bind_none _ hd]
        | some right =>
          rw [run_bind_some _ hd] at hturn
          rw [run_bind_some _ hturn, run_bind_some _ hd]
          exact congrArg (Part.run · s') (ih _)

theorem aboveWith_eq (stray : Expression → Part Expression)
    (deeper : Precedence → Part Expression) (p : Precedence) :
    aboveWith stray deeper p = above deeper p := by
  rw [aboveWith, above]
  simp only [extendWith_eq]

theorem operandWith_eq (stray : Expression → Part Expression) (levels : Nat) :
    operandWith stray levels = operand levels := by
  induction levels with
  | zero => rfl
  | succ levels ih =>
    funext p
    rw [operandWith, operand, aboveWith_eq, ih]

/-- **Whatever stands in the branch for a token without a rule,** an expression is read as if that
branch were not there. -/
theorem expressionWith_eq (stray : Expression → Part Expression) (p : Precedence) :
    expressionWith stray p = expression p := by
  rw [expressionWith, expression]
  simp only [operandWith_eq]

/-! ## The levels -/

theorem expression_performs (limit budget : Nat) (p : Precedence) :
    Performs limit budget (expression p) ((Expression.reader limit budget).read p) := by
  intro s hlimit hbudget
  rw [expression_run, hlimit, hbudget]

/-- **An expression is an operand on the next level, and so are the operands in it,** if the limit
admits that level.  No budget of levels is part of this. -/
theorem expression_eq_nested_above (p : Precedence) :
    expression p = nested (above expression p) := by
  apply Part.ext
  intro s
  rw [expression_run]
  cases hbudget : s.settings.maxDepth - s.depth with
  | zero => exact (nested_refused (above expression p) s rfl hbudget).symm
  | succ budget =>
    have habove := above_performs (expression_performs s.settings.maxDepth budget) p
    exact (nested_performs habove s rfl hbudget).symm

/-! ## Places -/

/-- A stretch of the tokens that ends before the end of the text is one of lexemes. -/
theorem stretch_tokens (source : String) {i j : Nat}
    (hj : j ≤ (Cursor.ofString source).lexemes.length) :
    (Stretch.mk i j).of (tokens source) =
      (((Cursor.ofString source).lexemes.drop i).take (j - i)).map (·.token) := by
  show (tokens source).extract i j = _
  rw [List.extract_eq_take_drop, tokens_eq_append, List.map_take, List.map_drop]
  rcases Nat.lt_or_ge j i with hji | hij
  · rw [Nat.sub_eq_zero_of_le (Nat.le_of_lt hji), List.take_zero, List.take_zero]
  · rw [List.drop_append_of_le_length (by rw [List.length_map]; omega),
      List.take_append_of_le_length (by rw [List.length_drop, List.length_map]; omega)]

/-- The token at a place does not bind above `p` exactly if the loop over operators ends there.  Behind
the lexemes stands the token for the end of the text, which binds nothing. -/
theorem exists_token_iff {source : String} {j : Nat} :
    (∃ t, (tokens source)[j]? = some t ∧ t.kind.precedence ≤ p) ↔
      j ≤ (Cursor.ofString source).lexemes.length ∧
        Expression.HaltsAt p ((Cursor.ofString source).lexemes.drop j) := by
  rw [tokens_eq_append, Expression.HaltsAt, List.head?_drop]
  rcases Nat.lt_trichotomy j (Cursor.ofString source).lexemes.length with hlt | rfl | hgt
  · rw [List.getElem?_append_left (by rwa [List.length_map]), List.getElem?_map,
      List.getElem?_eq_getElem hlt]
    simp [Nat.le_of_lt hlt]
  · rw [List.getElem?_append_right (Nat.le_of_eq (List.length_map _)), List.length_map,
      Nat.sub_self, List.getElem?_eq_none (Nat.le_refl _)]
    refine iff_of_true ⟨_, rfl, Nat.zero_le _⟩ ⟨Nat.le_refl _, ?_⟩
    intro t ht
    cases ht
  · rw [List.getElem?_eq_none]
    · refine iff_of_false ?_ fun h => Nat.not_le.2 hgt h.1
      rintro ⟨t, ht, -⟩
      cases ht
    · rw [List.length_append, List.length_map, List.length_singleton]
      omega

/-- A session goes past a row of tokens to where the loop over operators ends, exactly if it goes to
some later place, the row stands between the two, and the token there does not bind above `p`. -/
theorem StandsAt.goes_past_iff {source : String} {i : Nat} (h : s.StandsAt source i) {s' : Session}
    (hstop : s'.stop = s.stop) {row : List Token} (hrow : row ≠ []) :
    (∃ us, s.rest = us ++ s'.rest ∧ us.map (·.token) = row) ∧ Expression.HaltsAt p s'.rest ↔
      ∃ j, i < j ∧ s'.StandsAt source j ∧ (Stretch.mk i j).of (tokens source) = row ∧
        ∃ t, (tokens source)[j]? = some t ∧ t.kind.precedence ≤ p := by
  rw [h.rest_eq]
  constructor
  · rintro ⟨⟨us, hsplit, rfl⟩, hhalt⟩
    have hne : us ≠ [] := by
      rintro rfl
      exact hrow rfl
    have hpos := List.length_pos_iff.2 hne
    have hlength := congrArg List.length hsplit
    rw [List.length_drop, List.length_append] at hlength
    have hle : i + us.length ≤ (Cursor.ofString source).lexemes.length := by omega
    have hrest : s'.rest = (Cursor.ofString source).lexemes.drop (i + us.length) := by
      rw [← List.drop_drop, hsplit, List.drop_left]
    refine ⟨i + us.length, Nat.lt_add_of_pos_right hpos, ⟨hrest, hstop.trans h.stop_eq⟩, ?_, ?_⟩
    · rw [stretch_tokens source hle, hsplit, Nat.add_sub_cancel_left, List.take_left]
    · rw [hrest] at hhalt
      exact exists_token_iff.2 ⟨hle, hhalt⟩
  · rintro ⟨j, hij, hstands, rfl, htoken⟩
    obtain ⟨hle, hhalt⟩ := exists_token_iff.1 htoken
    rw [← hstands.rest_eq] at hhalt
    refine ⟨⟨_, ?_, (stretch_tokens source hle).symm⟩, hhalt⟩
    have hj : i + (j - i) = j := by omega
    rw [hstands.rest_eq, ← hj, ← List.drop_drop, hj, List.take_append_drop]

/-! ## The extent of an expression -/

/-- Whatever comes of a reading, the level is the one before it. -/
theorem follow_depth {α : Type} (s : Session) (r : Reading α) : (s.follow r).2.depth = s.depth := by
  cases r with
  | ok q => rfl
  | error x => rfl

theorem follow_eq_some_iff {α : Type} {s s' : Session} {r : Reading α} {a : α} :
    s.follow r = (some a, s') ↔ ∃ rest, r = .ok (a, rest) ∧ s' = { s with rest := rest } := by
  cases r with
  | ok q =>
    constructor
    · intro h
      cases h
      exact ⟨q.2, rfl, rfl⟩
    · rintro ⟨rest, h, rfl⟩
      cases h
      rfl
  | error x =>
    refine iff_of_false ?_ ?_
    · intro h
      cases h
    · rintro ⟨rest, h, -⟩
      cases h

/-- What an expression returns, and where: it is the grammar that says so. -/
theorem expression_run_eq_some_iff {s' : Session} {e : Expression} :
    (expression p).run s = (some e, s') ↔
      e.Legal (s.settings.maxDepth - s.depth) ∧ e.Above p ∧
        ((∃ us, s.rest = us ++ s'.rest ∧ us.map (·.token) = e.tokens) ∧
          Expression.HaltsAt p s'.rest) ∧
        s' = { s with rest := s'.rest } := by
  rw [expression_run, follow_eq_some_iff]
  constructor
  · rintro ⟨rest, hr, rfl⟩
    obtain ⟨us, hrest, hus, hlegal, habove, hhalt⟩ := Expression.read_eq_ok_iff.1 hr
    exact ⟨hlegal, habove, ⟨⟨us, hrest, hus⟩, hhalt⟩, rfl⟩
  · rintro ⟨hlegal, habove, ⟨⟨us, hrest, hus⟩, hhalt⟩, hs⟩
    exact ⟨s'.rest, Expression.read_eq_ok_iff.2 ⟨us, hrest, hus, hlegal, habove, hhalt⟩, hs⟩

/-- **The extent of an expression,** from any place of a text, on any level and with any errors so far.
An expression is returned exactly if it is the tree of the tokens from that place up to where the session
then stands, grouped as precedence has it and within the levels that are left, all of its left side binds
above `p`, and the token behind it does not; nothing but the place has changed then.  Whether or not one
is returned, the session is on its level again, and the loop over operators never comes to its branch for
a token without a rule. -/
theorem expression_extent {source : String} {i : Nat} (h : s.StandsAt source i) (p : Precedence) :
    (∀ stray, expressionWith stray p = expression p) ∧
    ((expression p).run s).2.depth = s.depth ∧
    ∀ e s', (expression p).run s = (some e, s') ↔
      (e.WellFormed ∧ e.Grouped ∧ e.depth ≤ s.settings.maxDepth - s.depth ∧
        ∀ d ∈ e.leftSpine, d.Above p) ∧
      (∃ j, i < j ∧ s'.StandsAt source j ∧ (Stretch.mk i j).of (tokens source) = e.tokens ∧
        ∃ t, (tokens source)[j]? = some t ∧ t.kind.precedence ≤ p) ∧
      s' = { s with rest := s'.rest } := by
  refine ⟨fun stray => expressionWith_eq stray p, ?_, ?_⟩
  · rw [expression_run]
    exact follow_depth s _
  · intro e s'
    rw [expression_run_eq_some_iff]
    constructor
    · rintro ⟨hlegal, habove, hpast, hs⟩
      have hstop : s'.stop = s.stop := by rw [hs]
      refine ⟨⟨hlegal.wellFormed, hlegal.grouped, hlegal.depth_le, ?_⟩,
        (h.goes_past_iff hstop e.tokens_ne_nil).1 hpast, hs⟩
      intro d hd
      exact Expression.above_of_mem_leftSpine hlegal.grouped habove hd
    · rintro ⟨⟨hwellFormed, hgrouped, hdepth, hspine⟩, hplace, hs⟩
      have hstop : s'.stop = s.stop := by rw [hs]
      exact ⟨⟨hwellFormed, hgrouped, hdepth⟩, hspine e e.mem_leftSpine_self,
        (h.goes_past_iff hstop e.tokens_ne_nil).2 hplace, hs⟩

/-- In the middle of a text, two levels deep and with an error noted, the value of a binding is read as
far as the sign `==`, which does not bind above a comparison. -/
theorem expression_extent_of_difference :
    let source := "let 5; let x = 1 - -2 * 3 == y"
    let s : Session := { start source ⟨5⟩ with
      rest := (Cursor.ofString source).lexemes.drop 6
      errors := (parse source ⟨5⟩).errors
      depth := 2 }
    s.errors.length = 1 ∧ s.StandsAt source 6 ∧
      ∃ e s', (expression .comparison).run s = (some e, s') ∧ e.text = "(1 - ((-2) * 3))" ∧
        (e.WellFormed ∧ e.Grouped ∧ e.depth ≤ 3 ∧ ∀ d ∈ e.leftSpine, d.Above .comparison) ∧
        (∃ j, 6 < j ∧ s'.StandsAt source j ∧ (Stretch.mk 6 j).of (tokens source) = e.tokens ∧
          ∃ t, (tokens source)[j]? = some t ∧ t.kind.precedence ≤ .comparison) ∧
        s' = { s with rest := s'.rest } := by
  intro source s
  have hstands : s.StandsAt source 6 := ⟨rfl, Cursor.stop_ofString source⟩
  have herrors : s.errors.length = 1 := by decide +kernel
  have htext : ((expression .comparison).run s).1.map Expression.text =
      some "(1 - ((-2) * 3))" := by decide +kernel
  obtain ⟨-, -, hextent⟩ := expression_extent hstands .comparison
  obtain ⟨e, he, hetext⟩ := Option.map_eq_some_iff.1 htext
  have hrun : (expression .comparison).run s = (some e, ((expression .comparison).run s).2) :=
    Prod.ext he rfl
  exact ⟨herrors, hstands, e, _, hrun, hetext, (hextent e _).1 hrun⟩

end Session

end MonkeyLang
