import MonkeyLang.Proofs.Coverage
import MonkeyLang.Proofs.Inclusion
import MonkeyLang.Proofs.Seam
import MonkeyLang.Text.Slice

/-!
# The text under a node parses to the node

The span of a statement or an expression is the very text that makes it: the slice of the source under
that span parses, without an error, to the node alone, as far back as the slice begins
(`parse_slice`).

Two things are behind it.  The characters from the start of one token to the end of another scan to the
tokens that the source has there (`Cursor.exists_slice`): what is cut away at the end was not part of
the last token, and what is cut away in front does not matter to a scan.  And a part of a tree that is
legal is legal itself, so that its tokens alone have it as their one reading (`Expression.Legal.part`).
-/

namespace MonkeyLang

open Character

/-! ## Scanning a part of a text -/

namespace Cursor

/-- A token is still there if the text is cut off anywhere behind it. -/
theorem next?_part {c c' : Cursor} {t : Lexeme} {m bs : List Char} (h : c.next? = some (t, c'))
    (hrest : c'.rest = m ++ bs) :
    ∃ l, c.rest = l ++ bs ∧ (Cursor.mk c.offset l).next? = some (t, ⟨c'.offset, m⟩) := by
  obtain ⟨w, hw, hsplit, hline, hstart, hstop, hoffset⟩ := exists_gap_of_next? h
  have habsorbs : ∀ d ∈ m.head?, t.kind.absorbs d = false := by
    intro d hd
    refine absorbs_of_next? h d ?_
    rw [hrest, List.head?_append, Option.mem_def.1 hd]
    rfl
  refine ⟨w ++ t.token.literal.toList ++ m, ?_, ?_⟩
  · rw [hsplit, hrest, List.append_assoc _ m]
  · rw [hoffset]
    exact next?_of_spelled (spelled_of_next? h) hw habsorbs hline hstart hstop

/-- The offset at which the last of some tokens ends; the offset `n` where there are none. -/
def lastStop (n : Nat) (ts : List Token) : Nat := ts.getLast?.elim n (·.span.stop)

theorem lastStop_cons (n : Nat) (t : Token) (ts : List Token) :
    lastStop n (t :: ts) = lastStop t.span.stop ts := by
  rw [lastStop, lastStop, List.getLast?_cons]
  cases ts.getLast? <;> rfl

/-- The first tokens of a text are the tokens of the text up to the end of the last of them. -/
theorem exists_front {c : Cursor} {us vs : List Lexeme} (h : c.lexemes = us ++ vs) :
    ∃ m bs, c.rest = m ++ bs ∧ (Cursor.mk c.offset m).lexemes = us ∧
      c.offset + byteLength m = lastStop c.offset (us.map (·.token)) := by
  induction us generalizing c with
  | nil => exact ⟨[], c.rest, rfl, lexemes_of_next?_eq_none (next?_eq_none_iff.2 rfl), rfl⟩
  | cons t us ih =>
    obtain ⟨c', hc, htail⟩ := exists_next?_of_lexemes_eq_cons h
    obtain ⟨m, bs, hrest, hlex, hlast⟩ := ih htail
    obtain ⟨l, hl, hnext⟩ := next?_part hc hrest
    have hstop : c'.offset + byteLength m = c.offset + byteLength l := next?_stop hnext
    refine ⟨l, bs, hl, ?_, ?_⟩
    · rw [lexemes_of_next?_eq_some hnext, hlex]
    · rw [← hstop, hlast, List.map_cons, lastStop_cons, (span_of_next? hc).2.2]

/-- The last tokens of a text are the tokens of the text from the start of the first of them. -/
theorem exists_back {c : Cursor} {us vs : List Lexeme} {v : Lexeme}
    (h : c.lexemes = us ++ v :: vs) :
    ∃ as bs, c.rest = as ++ bs ∧ c.offset + byteLength as = v.token.span.start ∧
      (Cursor.mk v.token.span.start bs).lexemes.map (·.token) = (v :: vs).map (·.token) := by
  induction us generalizing c with
  | nil =>
    obtain ⟨c', hc, rfl⟩ := exists_next?_of_lexemes_eq_cons h
    obtain ⟨w, -, hsplit, -, hstart, hstop, hoffset⟩ := exists_gap_of_next? hc
    have hv : v.token.Spelled := spelled_of_next? hc
    -- With no blank in front of it, the first token is there without a line break.
    have hnext := next?_of_spelled (t := ⟨v.token, false⟩) (o := v.token.span.start) (w := []) hv
      (List.forall_mem_nil _) (fun d hd => absorbs_of_next? hc d hd) rfl rfl hstop
    refine ⟨w, v.token.literal.toList ++ c'.rest, ?_, hstart.symm, ?_⟩
    · rw [hsplit, List.append_assoc]
    · rw [List.nil_append, ← hoffset] at hnext
      rw [lexemes_of_next?_eq_some hnext]
      rfl
  | cons t us ih =>
    obtain ⟨c', hc, htail⟩ := exists_next?_of_lexemes_eq_cons h
    obtain ⟨w, -, hsplit, -, hstart, hstop, hoffset⟩ := exists_gap_of_next? hc
    obtain ⟨as, bs, hrest, has, hlex⟩ := ih htail
    refine ⟨w ++ t.token.literal.toList ++ as, bs, ?_, ?_, hlex⟩
    · rw [hsplit, hrest, List.append_assoc _ as]
    · rw [byteLength_append, byteLength_append]
      omega

/-- The slice of a text from the start of one token to the end of another has the tokens that the text
has there. -/
theorem exists_slice {source : String} {us row ws : List Lexeme} {s : Span}
    (h : (Cursor.ofString source).lexemes = us ++ row ++ ws)
    (hs : s.Frames (row.map (·.token))) :
    ∃ text, s.slice? source = some text ∧
      ((Cursor.ofString text).lexemes.map (Lexeme.mapSpan (.shift s.start))).map (·.token) =
        row.map (·.token) := by
  obtain ⟨a, b, ha, hb, rfl⟩ := hs
  cases row with
  | nil => cases ha
  | cons v vs =>
    cases ha
    rw [List.append_assoc, List.cons_append] at h
    obtain ⟨as, bs, hsource, hstart, hback⟩ := exists_back h
    rw [← List.cons_append, List.map_append] at hback
    obtain ⟨row', ws', hlex, hrow, -⟩ := List.map_eq_append_iff.1 hback
    obtain ⟨m, bs', rfl, hfront, hstop⟩ := exists_front hlex
    have hmoved : (Cursor.mk v.token.span.start m).lexemes =
        (Cursor.ofString (String.ofList m)).lexemes.map
          (Lexeme.mapSpan (.shift v.token.span.start)) := by
      rw [← lexemes_shift, ofString, shift, String.toList_ofList, Nat.zero_add]
    have hstart : byteLength as = v.token.span.start := (Nat.zero_add _).symm.trans hstart
    have hstop : v.token.span.start + byteLength m = b.span.stop := by
      rw [hrow, lastStop, hb] at hstop
      exact hstop
    refine ⟨String.ofList m, Span.slice?_eq_some_iff.2
      ⟨String.ofList as, String.ofList bs', ?_, ?_, ?_⟩, ?_⟩
    · rw [← String.ofList_append, ← String.ofList_append, List.append_assoc, ← hsource]
      exact String.ofList_toList.symm
    · rw [byteLength_ofList, hstart]
    · rw [← String.ofList_append, byteLength_ofList, byteLength_append, hstart, hstop]
    · rw [← hmoved, hfront, hrow]

end Cursor

/-! ## Parts of a tree -/

namespace Expression

theorem mem_parts_self (e : Expression) : e ∈ e.parts := by
  cases e <;> exact List.mem_cons_self

/-- What is inside a legal expression is legal. -/
theorem Legal.part {limit : Nat} {d e : Expression} (h : e.Legal limit) (hd : d ∈ e.parts) :
    d.Legal limit := by
  induction e with
  | name token | integer token value =>
    obtain rfl := List.mem_singleton.1 hd
    exact h
  | unary operator operand ih =>
    rcases List.mem_cons.1 hd with rfl | hd
    · exact h
    · have hdepth : 1 + operand.depth ≤ limit := h.depth_le
      exact ih ⟨h.wellFormed.2, h.grouped.2, by omega⟩ hd
  | binary left operator right ihl ihr =>
    rcases List.mem_cons.1 hd with rfl | hd
    · exact h
    · have hdepth : max left.depth (1 + right.depth) ≤ limit := h.depth_le
      obtain ⟨-, -, hleft, hright⟩ := h.grouped
      rcases List.mem_append.1 hd with hd | hd
      · exact ihl ⟨h.wellFormed.2.1, hleft, by omega⟩ hd
      · exact ihr ⟨h.wellFormed.2.2, hright, by omega⟩ hd

end Expression

/-- The expressions of a statement: the name that it binds, its value, and all that is inside the
value. -/
def Statement.expressions : Statement → List Expression
  | binding _ name value => .name name :: value.parts
  | returning _ value => value.parts
  | expression _ value => value.parts

/-- Each expression of a statement stands in the row of the statement, and is legal if its value is. -/
theorem Statement.WrittenWith.infix_of_mem_expressions {s : Statement} {row : List Token}
    {e : Expression} {limit : Nat} (h : s.WrittenWith row) (hl : s.value.Legal limit)
    (he : e ∈ s.expressions) : e.tokens <:+: row ∧ e.Legal limit := by
  have hvalue (he : e ∈ s.value.parts) : e.tokens <:+: row ∧ e.Legal limit := by
    obtain ⟨pre, hpre⟩ := h.exists_append
    have hsuffix : s.value.tokens <:+ row := ⟨pre, hpre.symm⟩
    exact ⟨(Expression.tokens_infix_of_mem_parts he).trans hsuffix.isInfix, hl.part he⟩
  cases h with
  | @binding token name sign value _ hn =>
    rcases List.mem_cons.1 he with rfl | he
    · refine ⟨⟨[token], sign :: value.tokens, rfl⟩, hn, trivial, ?_⟩
      exact Nat.le_trans value.depth_pos hl.depth_le
    · exact hvalue he
  | returning => exact hvalue he
  | expression => exact hvalue he

/-! ## Parsing a part of a text -/

/-- A statement is what the text under its span parses to. -/
theorem exists_parse_slice {source : String} {settings : Settings} {s : Statement}
    {row : List Token} (h : s.WrittenWith row)
    (hrow : row <:+: (Cursor.ofString source).lexemes.map (·.token))
    (hl : s.value.Legal settings.maxDepth) :
    ∃ text s', s.span.slice? source = some text ∧ parse text settings = ⟨⟨[s']⟩, []⟩ ∧
      s'.shift s.span.start = s := by
  have hframes := h.span_frames ((Cursor.inOrder_lexemes _).sublist hrow.sublist)
  obtain ⟨pre, post, hall⟩ := hrow
  obtain ⟨us, ws, hlexemes, hus, -⟩ := List.map_eq_append_iff.1 hall.symm
  obtain ⟨vs, ts, rfl, -, rfl⟩ := List.map_eq_append_iff.1 hus
  obtain ⟨text, hslice, htokens⟩ := Cursor.exists_slice hlexemes hframes
  have hone : Program.WrittenWith [s] (((Cursor.ofString text).lexemes.map
      (Lexeme.mapSpan (.shift s.span.start))).map (·.token)) := by
    rw [htokens, ← List.append_nil (ts.map _)]
    exact .bare h (by simp) .nil
  have hstop : Span.shift s.span.start (.point text.utf8ByteSize) =
      .point (text.utf8ByteSize + s.span.start) := rfl
  obtain ⟨ss, hparse, hss⟩ := Program.exists_ofOutcomes_of_mapSpan _ hstop hone
    (List.forall_mem_singleton.2 hl)
  obtain ⟨s', rfl, hs'⟩ := List.map_eq_singleton_iff.1 hss
  exact ⟨text, s', hslice, by rw [parse_eq_ofOutcomes, hparse], hs'⟩

/-- **A node is what the text under its span says.**  The slice of a source under the span of a statement
that has been parsed parses, without an error, to that statement alone, and the slice under the span of
an expression in it to that expression alone, as a statement that begins with its first token. -/
theorem parse_slice (source : String) (settings : Settings) (s : Statement)
    (h : s ∈ (parse source settings).program.statements) :
    (∃ text s', s.span.slice? source = some text ∧ parse text settings = ⟨⟨[s']⟩, []⟩ ∧
      s'.shift s.span.start = s) ∧
    ∀ e ∈ s.expressions, ∃ text s' first, e.span.slice? source = some text ∧
      parse text settings = ⟨⟨[s']⟩, []⟩ ∧ e.tokens.head? = some first ∧
      s'.shift e.span.start = .expression first e := by
  obtain ⟨row, hrow, hw, hl⟩ := exists_writtenWith_of_mem_statements h
  refine ⟨exists_parse_slice hw hrow hl, fun e he => ?_⟩
  obtain ⟨hpart, hlegal⟩ := hw.infix_of_mem_expressions hl he
  obtain ⟨first, us, hfirst⟩ := List.exists_cons_of_ne_nil e.tokens_ne_nil
  have hhead : e.tokens.head? = some first := by rw [hfirst, List.head?_cons]
  obtain ⟨text, s', hslice, hparse, hs'⟩ :=
    exists_parse_slice (Statement.WrittenWith.expression hhead) (hpart.trans hrow) hlegal
  exact ⟨text, s', first, hslice, hparse, hhead, hs'⟩

/-- Behind a character of two bytes that no token begins with, a binding and its value are still cut out
whole. -/
theorem parse_slice_binding :
    let x : Token := .ofText .name "x" 12
    let star : Token := .ofText (.operator .star) "*" 14
    let minus : Token := .ofText (.operator .minus) "-" 16
    let e : Expression := .binary (.name x) star (.unary minus (.name (.ofText .name "a" 17)))
    let s : Statement :=
      .binding (.ofText (.keyword .kwLet) "let" 4) (.ofText .name "y" 8) e
    s ∈ (parse "é; let y = x * -a" ⟨3⟩).program.statements ∧
      (∃ s', parse "let y = x * -a" ⟨3⟩ = ⟨⟨[s']⟩, []⟩ ∧ s'.shift 4 = s) ∧
      ∃ s', parse "x * -a" ⟨3⟩ = ⟨⟨[s']⟩, []⟩ ∧ s'.shift 12 = .expression x e := by
  intro x star minus e s
  have hmem : s ∈ (parse "é; let y = x * -a" ⟨3⟩).program.statements := by decide +kernel
  have hslice : s.span.slice? "é; let y = x * -a" = some "let y = x * -a" := by decide +kernel
  have hslice' : e.span.slice? "é; let y = x * -a" = some "x * -a" := by decide +kernel
  obtain ⟨⟨text, s', htext, hparse, hs'⟩, hparts⟩ := parse_slice "é; let y = x * -a" ⟨3⟩ s hmem
  obtain ⟨text', t', first, htext', hparse', hfirst, ht'⟩ :=
    hparts e (List.mem_cons_of_mem _ e.mem_parts_self)
  rw [hslice] at htext
  rw [hslice'] at htext'
  cases htext
  cases htext'
  cases hfirst
  exact ⟨hmem, ⟨s', hparse, hs'⟩, t', hparse', ht'⟩

end MonkeyLang
