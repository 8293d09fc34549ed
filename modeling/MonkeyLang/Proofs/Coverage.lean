import Mathlib.Data.List.Forall2
import MonkeyLang.Proofs.Acceptance
import MonkeyLang.Proofs.Scanning

/-!
# No token is lost

Where in the row of all tokens the statements of a program stand, be the program complete or not.  Each
statement takes a stretch of the row, its span reaches from the first token of the stretch to the last,
and the same holds of every expression inside it (`Statement.LiesIn`).  The stretches lie one behind the
other.  What is between two of them, or before the first or behind the last, is accounted for
(`Accounted`): there is nothing, or the one semicolon that ends a statement, or an error is at one of
those tokens or at the token directly behind them.

An error may be at a token that the next statement then uses, so the account of a gap reaches one token
further than the gap.  The proof goes along the attempts and keeps that the gap so far is accounted for
up to where the next attempt begins: an attempt that fails blames a token between its own beginning and
the place at which the next one begins (`Program.exists_stretches`).
-/

namespace MonkeyLang

/-- The indices from `first` up to, but not including, `stop`. -/
structure Stretch where
  first : Nat
  stop : Nat
deriving DecidableEq, Repr

/-- The tokens of a row at the indices of a stretch. -/
def Stretch.of (r : Stretch) (ts : List Token) : List Token := ts.extract r.first r.stop

/-- The span reaches from the start of the first of the tokens to the end of the last. -/
def Span.Frames (s : Span) (ts : List Token) : Prop :=
  ∃ a b, ts.head? = some a ∧ ts.getLast? = some b ∧ s = ⟨a.span.start, b.span.stop⟩

/-- An expression together with all expressions inside it. -/
def Expression.parts : Expression → List Expression
  | name token => [name token]
  | integer token value => [integer token value]
  | unary operator operand => unary operator operand :: operand.parts
  | binary left operator right => binary left operator right :: (left.parts ++ right.parts)

/-- A statement takes the stretch `r` of the row `ts`, and each expression in it a part of that. -/
structure Statement.LiesIn (ts : List Token) (s : Statement) (r : Stretch) : Prop where
  first_lt_stop : r.first < r.stop
  stop_lt_length : r.stop < ts.length
  writtenWith : s.WrittenWith (r.of ts)
  head?_eq : (r.of ts).head? = some s.token
  frames : s.span.Frames (r.of ts)
  parts : ∀ e ∈ s.value.parts, ∃ q : Stretch, r.first ≤ q.first ∧ q.first < q.stop ∧
    q.stop ≤ r.stop ∧ q.of ts = e.tokens ∧ e.span.Frames (q.of ts)

/-- The tokens from index `i` up to index `j`, which stand `after` a statement or not, are none, or the
semicolon of that statement, or an error is at one of them or at the token behind. -/
def Accounted (errors : List ParseError) (ts : List Token) (after : Bool) (i j : Nat) : Prop :=
  i = j ∨ (after ∧ j = i + 1 ∧ ∃ t, ts[i]? = some t ∧ t.kind = .semicolon) ∨
    ∃ e ∈ errors, ∃ k, i ≤ k ∧ k ≤ j ∧ ts[k]? = some e.token

/-- All gaps from index `i` on are accounted for: before each of the stretches, which do not overlap,
and behind the last up to the end of the text. -/
def GapsAccounted (errors : List ParseError) (ts : List Token) :
    (after : Bool) → (i : Nat) → List Stretch → Prop
  | after, i, [] => Accounted errors ts after i (ts.length - 1)
  | after, i, r :: rs =>
    i ≤ r.first ∧ Accounted errors ts after i r.first ∧ GapsAccounted errors ts true r.stop rs

/-! ## Spans over rows of tokens -/

theorem InOrder.sublist {ts us : List Token} (h : InOrder ts) (hs : us.Sublist ts) : InOrder us :=
  ⟨fun t ht => h.start_lt_stop t (hs.subset ht), h.pairwise.sublist hs⟩

theorem Span.frames_singleton (t : Token) : t.span.Frames [t] := ⟨t, t, rfl, rfl, rfl⟩

/-- The hull of two spans frames all that is between them too. -/
theorem Span.Frames.hull {a b : Span} {ts ms us : List Token} (ha : a.Frames ts)
    (hb : b.Frames us) (h : InOrder (ts ++ ms ++ us)) : (a.hull b).Frames (ts ++ ms ++ us) := by
  obtain ⟨t, t', ht, ht', rfl⟩ := ha
  obtain ⟨u, u', hu, hu', rfl⟩ := hb
  have hmem : t ∈ ts ∧ t' ∈ ts ∧ u ∈ us ∧ u' ∈ us :=
    ⟨List.mem_of_head? ht, List.mem_of_getLast? ht', List.mem_of_head? hu, List.mem_of_getLast? hu'⟩
  have hbefore {x y : Token} (hx : x ∈ ts) (hy : y ∈ us) : x.span.stop ≤ y.span.start :=
    (List.pairwise_append.1 h.pairwise).2.2 x (List.mem_append_left ms hx) y hy
  have hpos {x : Token} (hx : x ∈ ts ∨ x ∈ us) : x.span.start < x.span.stop :=
    h.start_lt_stop x (by rcases hx with hx | hx <;> simp [hx])
  refine ⟨t, u', ?_, ?_, ?_⟩
  · rw [List.append_assoc, List.head?_append, ht]
    rfl
  · rw [List.getLast?_append, hu']
    rfl
  · have h₁ := hbefore hmem.1 hmem.2.2.1
    have h₂ := hbefore hmem.2.1 hmem.2.2.2
    have h₃ := hpos (Or.inl hmem.1)
    have h₄ := hpos (Or.inr hmem.2.2.2)
    show Span.mk (min t.span.start u.span.start) (max t'.span.stop u'.span.stop) = _
    rw [Nat.min_eq_left (by omega), Nat.max_eq_right (by omega)]

theorem Expression.span_frames {e : Expression} (h : InOrder e.tokens) :
    e.span.Frames e.tokens := by
  induction e with
  | name token => exact Span.frames_singleton token
  | integer token value => exact Span.frames_singleton token
  | unary operator operand ih =>
    have hsub := ih (h.sublist (List.sublist_cons_self operator operand.tokens))
    have hrow : InOrder ([operator] ++ [] ++ operand.tokens) := h
    exact (Span.frames_singleton operator).hull hsub hrow
  | binary left operator right ihl ihr =>
    have hrow : left.tokens ++ operator :: right.tokens = left.tokens ++ [operator] ++ right.tokens := by
      rw [List.append_assoc, List.singleton_append]
    rw [tokens, hrow] at h ⊢
    have hl := ihl (h.sublist (by rw [List.append_assoc]; exact List.sublist_append_left _ _))
    have hr := ihr (h.sublist (List.sublist_append_right _ _))
    exact hl.hull hr h

/-- The row of a statement ends with the row of its value. -/
theorem Statement.WrittenWith.exists_append {s : Statement} {ts : List Token}
    (h : s.WrittenWith ts) : ∃ pre, ts = pre ++ s.value.tokens := by
  cases h with
  | @binding token name sign => exact ⟨[token, name, sign], rfl⟩
  | @returning token => exact ⟨[token], rfl⟩
  | expression => exact ⟨[], rfl⟩

theorem Statement.WrittenWith.span_frames {s : Statement} {ts : List Token} (h : s.WrittenWith ts)
    (ho : InOrder ts) : s.span.Frames ts := by
  obtain ⟨pre, hpre⟩ := h.exists_append
  have hsub : s.value.tokens.Sublist ts := by
    rw [hpre]
    exact List.sublist_append_right _ _
  have hvalue := Expression.span_frames (ho.sublist hsub)
  cases h with
  | @binding token name sign value =>
    have hrow : InOrder ([token] ++ [name, sign] ++ value.tokens) := ho
    exact (Span.frames_singleton token).hull hvalue hrow
  | @returning token value =>
    have hrow : InOrder ([token] ++ [] ++ value.tokens) := ho
    exact (Span.frames_singleton token).hull hvalue hrow
  | expression => exact hvalue

theorem Expression.tokens_infix_of_mem_parts {d e : Expression} (h : d ∈ e.parts) :
    d.tokens <:+: e.tokens := by
  induction e with
  | name token | integer token value =>
    obtain rfl := List.mem_singleton.1 h
    exact List.infix_rfl
  | unary operator operand ih =>
    rcases List.mem_cons.1 h with rfl | h
    · exact List.infix_rfl
    · exact (ih h).trans (List.suffix_cons operator operand.tokens).isInfix
  | binary left operator right ihl ihr =>
    rcases List.mem_cons.1 h with rfl | h
    · exact List.infix_rfl
    · rcases List.mem_append.1 h with h | h
      · exact (ihl h).trans (List.prefix_append _ _).isInfix
      · exact (ihr h).trans ((List.suffix_cons operator right.tokens).trans
          (List.suffix_append _ _)).isInfix

/-! ## Stretches of a row -/

theorem Stretch.of_append (pre row post : List Token) :
    Stretch.of ⟨pre.length, pre.length + row.length⟩ (pre ++ row ++ post) = row := by
  rw [of, List.extract_eq_take_drop, List.append_assoc, List.drop_left, Nat.add_sub_cancel_left,
    List.take_left]

/-- A part of a row that is itself part of a longer row has a stretch of the longer one. -/
theorem Stretch.exists_of_infix {us row : List Token} (h : us <:+: row) (hne : us ≠ [])
    (pre post : List Token) :
    ∃ q : Stretch, pre.length ≤ q.first ∧ q.first < q.stop ∧ q.stop ≤ pre.length + row.length ∧
      q.of (pre ++ row ++ post) = us := by
  obtain ⟨a, b, hab⟩ := h
  have hwhole : pre ++ row ++ post = (pre ++ a) ++ us ++ (b ++ post) := by
    rw [← hab]
    simp only [List.append_assoc]
  have hlen : row.length = a.length + us.length + b.length := by
    rw [← hab, List.length_append, List.length_append]
  have hpos := List.length_pos_iff.2 hne
  refine ⟨⟨(pre ++ a).length, (pre ++ a).length + us.length⟩, ?_, ?_, ?_, ?_⟩
  · rw [List.length_append]
    exact Nat.le_add_right _ _
  · exact Nat.lt_add_of_pos_right hpos
  · show (pre ++ a).length + us.length ≤ pre.length + row.length
    rw [List.length_append]
    omega
  · rw [hwhole]
    exact of_append (pre ++ a) us (b ++ post)

theorem Statement.WrittenWith.liesIn {s : Statement} {row : List Token} (h : s.WrittenWith row)
    (ho : InOrder row) (pre : List Token) {post : List Token} (hpost : post ≠ []) :
    s.LiesIn (pre ++ row ++ post) ⟨pre.length, pre.length + row.length⟩ := by
  have hrow := Stretch.of_append pre row post
  have hpos := List.length_pos_iff.2 hpost
  refine ⟨?_, ?_, ?_, ?_, ?_, ?_⟩
  · have hhead := h.head?
    cases row with
    | nil => cases hhead
    | cons t row => exact Nat.lt_add_of_pos_right (Nat.succ_pos _)
  · simp only [List.length_append]
    omega
  · rw [hrow]
    exact h
  · rw [hrow]
    exact h.head?
  · rw [hrow]
    exact h.span_frames ho
  · intro e he
    obtain ⟨start, hstart⟩ := h.exists_append
    have hinfix : e.tokens <:+: row :=
      (Expression.tokens_infix_of_mem_parts he).trans ⟨start, [], by rw [hstart, List.append_nil]⟩
    obtain ⟨q, hfirst, hlt, hstop, hq⟩ := Stretch.exists_of_infix hinfix e.tokens_ne_nil pre post
    refine ⟨q, hfirst, hlt, hstop, hq, ?_⟩
    rw [hq]
    exact Expression.span_frames (ho.sublist hinfix.sublist)

/-! ## The account of the gaps -/

section Account

variable {errors : List ParseError} {ts : List Token} {after : Bool} {i j : Nat}

theorem GapsAccounted.pairwise {rs : List Stretch} (h : GapsAccounted errors ts after i rs)
    (hrs : ∀ r ∈ rs, r.first < r.stop) :
    (∀ r ∈ rs, i ≤ r.first) ∧ rs.Pairwise fun q r => q.stop ≤ r.first := by
  induction rs generalizing after i with
  | nil => exact ⟨List.forall_mem_nil _, .nil⟩
  | cons r rs ih =>
    obtain ⟨hi, -, hgaps⟩ := h
    obtain ⟨hr, hrs⟩ := List.forall_mem_cons.1 hrs
    obtain ⟨hle, hpair⟩ := ih hgaps hrs
    refine ⟨List.forall_mem_cons.2 ⟨hi, fun q hq => ?_⟩, List.pairwise_cons.2 ⟨hle, hpair⟩⟩
    have := hle q hq
    omega

end Account

theorem Statement.first_lt_stop_of_forall₂ {ts : List Token} {ss : List Statement}
    {rs : List Stretch} (h : List.Forall₂ (LiesIn ts) ss rs) : ∀ r ∈ rs, r.first < r.stop := by
  induction h with
  | nil => exact List.forall_mem_nil _
  | cons hs _ ih => exact List.forall_mem_cons.2 ⟨hs.first_lt_stop, ih⟩

/-- The token of a failure is the first of what the failure left, the end of the text included. -/
theorem Failure.head?_error (x : Failure) (stop : Nat) :
    (x.rest.map Lexeme.token ++ [Token.endOfText stop]).head? = some (x.error stop).token := by
  obtain ⟨problem, rest⟩ := x
  cases rest <;> rfl

/-- Behind a statement: the next attempt begins at once, or behind the one semicolon. -/
theorem exists_accounted_dropSemicolon (errors : List ParseError) {row pre post : List Token}
    {rest : List Lexeme} (hrow : row = pre ++ rest.map Lexeme.token ++ post) :
    ∃ pre', row = pre' ++ (Statement.dropSemicolon rest).map Lexeme.token ++ post ∧
      pre.length ≤ pre'.length ∧ Accounted errors row true pre.length pre'.length := by
  cases rest with
  | nil => exact ⟨pre, hrow, Nat.le_refl _, Or.inl rfl⟩
  | cons m rest =>
    rw [Statement.dropSemicolon]
    by_cases hm : m.kind = .semicolon
    · have hlen : (pre ++ [m.token]).length = pre.length + 1 := by
        rw [List.length_append, List.length_singleton]
      have hmark : row[pre.length]? = some m.token := by simp [hrow]
      rw [if_pos hm]
      refine ⟨pre ++ [m.token], ?_, by omega, Or.inr (Or.inl ⟨rfl, hlen, m.token, hmark, hm⟩)⟩
      rw [hrow, List.map_cons, List.append_assoc pre [m.token], List.singleton_append]
    · rw [if_neg hm]
      exact ⟨pre, hrow, Nat.le_refl _, Or.inl rfl⟩

/-- Behind a failure: the next attempt begins behind the offending token or at it. -/
theorem exists_accounted_resume {errors : List ParseError} {row pre : List Token}
    {ts : List Lexeme} {x : Failure} {stop : Nat} (after : Bool) {i : Nat}
    (hrow : row = pre ++ ts.map Lexeme.token ++ [.endOfText stop]) (hx : x.rest <:+ ts)
    (herror : x.error stop ∈ errors) (hi : i ≤ pre.length) :
    ∃ pre', row = pre' ++ x.resume.map Lexeme.token ++ [.endOfText stop] ∧ i ≤ pre'.length ∧
      Accounted errors row after i pre'.length := by
  obtain ⟨skipped, rfl⟩ := hx
  obtain ⟨skipped', hskipped'⟩ := x.resume_suffix
  obtain ⟨post, hpost⟩ := List.head?_eq_some_iff.1 (x.head?_error stop)
  have hblamed : row = pre ++ skipped.map Lexeme.token ++ (x.error stop).token :: post := by
    rw [← hpost, hrow]
    simp only [List.map_append, List.append_assoc]
  have hk : row[(pre ++ skipped.map Lexeme.token).length]? = some (x.error stop).token := by
    simp [hblamed]
  refine ⟨pre ++ skipped.map Lexeme.token ++ skipped'.map Lexeme.token, ?_, ?_,
    Or.inr (Or.inr ⟨x.error stop, herror, _, ?_, ?_, hk⟩)⟩
  · rw [hrow, ← hskipped']
    simp only [List.map_append, List.append_assoc]
  · simp only [List.length_append]
    omega
  · simp only [List.length_append]
    omega
  · simp only [List.length_append]
    omega

/-! ## All attempts -/

/-- Each attempt that fails blames a token of the stream, the end of the text included. -/
theorem Program.token_mem_of_error_mem {limit stop : Nat} {ts : List Lexeme} {e : ParseError}
    (h : .error e ∈ outcomes limit stop ts) :
    e.token ∈ ts.map Lexeme.token ++ [.endOfText stop] := by
  have hmono {us vs : List Lexeme} (hs : us <:+ vs) :
      us.map Lexeme.token ++ [Token.endOfText stop] ⊆
        vs.map Lexeme.token ++ [Token.endOfText stop] :=
    List.append_subset.2
      ⟨List.subset_append_of_subset_left _ (hs.map Lexeme.token).subset, List.subset_append_right _ _⟩
  induction ts using attempts_induction limit with
  | nil => cases (outcomes_nil limit stop ▸ h)
  | ok t ts s rest hp hrest ih =>
    rw [outcomes_cons_of_ok stop hp] at h
    rcases List.mem_cons.1 h with h | h
    · cases h
    · exact hmono hrest (ih h)
  | error t ts x hp hrest ih =>
    rw [outcomes_cons_of_error stop hp] at h
    rcases List.mem_cons.1 h with h | h
    · cases h
      exact hmono (Statement.rest_suffix_of_parse_eq_error hp)
        (List.mem_of_head? (x.head?_error stop))
    · exact hmono hrest (ih h)

/-- The statements of a series of attempts at the row behind `pre` take stretches of it, and the gaps
are accounted for if that is so of the gap before the first attempt. -/
theorem Program.exists_stretches {limit stop : Nat} {ts : List Lexeme} {row pre : List Token}
    {errors : List ParseError} {after : Bool} {i : Nat}
    (hrow : row = pre ++ ts.map Lexeme.token ++ [.endOfText stop])
    (ho : InOrder (ts.map Lexeme.token))
    (herrors : ∀ e, .error e ∈ outcomes limit stop ts → e ∈ errors) (hi : i ≤ pre.length)
    (hacc : Accounted errors row after i pre.length) :
    ∃ rs, List.Forall₂ (Statement.LiesIn row)
        ((outcomes limit stop ts).filterMap Parse.statement?) rs ∧
      GapsAccounted errors row after i rs := by
  fun_induction outcomes limit stop ts generalizing pre after i with
  | case1 =>
    have hlen : row.length - 1 = pre.length := by simp [hrow]
    refine ⟨[], .nil, ?_⟩
    rw [GapsAccounted, hlen]
    exact hacc
  | case2 t ts ih =>
    have hrest := Statement.attempt_rest_suffix_cons limit stop t ts
    have ho' := ho.sublist (hrest.sublist.map Lexeme.token)
    have herrors' : ∀ e, .error e ∈ outcomes limit stop (Statement.attempt limit stop t ts).rest →
        e ∈ errors := fun e he => herrors e (List.mem_cons_of_mem _ he)
    cases hp : Statement.parse limit t ts with
    | ok r =>
      obtain ⟨s, rest⟩ := r
      obtain ⟨us, hus, hw, -, -⟩ := Statement.parse_eq_ok_iff.1 hp
      rw [Statement.attempt_of_parse_eq_ok stop hp] at ih ho' herrors' ⊢
      rw [hus, List.map_append] at hrow ho
      have hlies : s.LiesIn row ⟨pre.length, pre.length + (us.map Lexeme.token).length⟩ := by
        have h := hw.liesIn (ho.sublist (List.sublist_append_left _ _)) pre
          (List.append_ne_nil_of_right_ne_nil (rest.map Lexeme.token)
            (List.cons_ne_nil (.endOfText stop) []))
        rw [hrow]
        simpa only [List.append_assoc] using h
      have hbehind : row = (pre ++ us.map Lexeme.token) ++ rest.map Lexeme.token ++
          [.endOfText stop] := by
        rw [hrow]
        simp only [List.append_assoc]
      obtain ⟨pre', hrow', hle, hacc'⟩ := exists_accounted_dropSemicolon errors hbehind
      obtain ⟨rs, hall, hgaps⟩ := ih hrow' ho' herrors' hle hacc'
      rw [List.length_append] at hgaps
      exact ⟨_ :: rs, .cons hlies hall, hi, hacc, hgaps⟩
    | error x =>
      have hx := Statement.rest_suffix_of_parse_eq_error hp
      rw [Statement.attempt_of_parse_eq_error stop hp] at ih ho' herrors herrors' ⊢
      have herror : x.error stop ∈ errors := herrors _ List.mem_cons_self
      obtain ⟨pre', hrow', hi', hacc'⟩ := exists_accounted_resume after hrow hx herror hi
      exact ih hrow' ho' herrors' hi' hacc'

/-- **Every token is accounted for.**  The statements that a text parses to take stretches of its row
of tokens, one behind the other, and what is between the stretches is nothing, the semicolon of the
statement before, or touched by an error. -/
theorem parse_covers_tokens (source : String) (settings : Settings) :
    ∃ rs : List Stretch,
      List.Forall₂ (Statement.LiesIn (tokens source))
        (parse source settings).program.statements rs ∧
      (rs.Pairwise fun q r => q.stop ≤ r.first) ∧
      GapsAccounted (parse source settings).errors (tokens source) false 0 rs := by
  have hrow : tokens source = [] ++ (Cursor.ofString source).lexemes.map (·.token) ++
      [.endOfText source.utf8ByteSize] := by
    rw [tokens, Cursor.tokens, Cursor.stop_ofString, List.nil_append]
  have herrors : ∀ e, .error e ∈ Program.outcomes settings.maxDepth source.utf8ByteSize
      (Cursor.ofString source).lexemes → e ∈ (parse source settings).errors := by
    intro e he
    rw [parse_eq_ofOutcomes]
    exact List.mem_filterMap.2 ⟨_, he, rfl⟩
  obtain ⟨rs, hall, hgaps⟩ := Program.exists_stretches hrow (Cursor.inOrder_lexemes _) herrors
    (Nat.le_refl 0) (Or.inl rfl)
  have hstatements : (parse source settings).program.statements =
      (Program.outcomes settings.maxDepth source.utf8ByteSize
        (Cursor.ofString source).lexemes).filterMap Parse.statement? := by
    rw [parse_eq_ofOutcomes]
    rfl
  rw [← hstatements] at hall
  exact ⟨rs, hall, (hgaps.pairwise (Statement.first_lt_stop_of_forall₂ hall)).2, hgaps⟩

end MonkeyLang
