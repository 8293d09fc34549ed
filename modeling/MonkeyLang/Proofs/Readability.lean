import MonkeyLang.Proofs.Lexicon
import MonkeyLang.Proofs.Rendering

/-!
# The text of a tree tells the tree

Two trees have the same text only if they are the same tree, but for the places of their tokens and for
the integers that their numerals are said to denote, neither of which is in the text (`text_eq_iff`).
This is so of all trees that are made of tokens of the language, with any grouping and with any operator
in any place; most of them are no trees that a text parses to.

A text scans to one row of tokens, parentheses and all (`Expression.spells_written`), so what is left to
show is that a row has one tree.  There the parentheses do what precedence does in a source: an
expression ends where its first parenthesis is closed, whatever is behind it.  So it is enough to go down
two trees at once (`Expression.written_append_inj`), and the first token of each tells a leaf from an
operator, and the second a unary operator from a binary one.
-/

namespace MonkeyLang

open Character

/-- The expression, with nothing kept of the integers that its numerals are said to denote. -/
def Expression.unvalued : Expression → Expression
  | name token => name token
  | integer token _ => integer token 0
  | unary operator operand => unary operator operand.unvalued
  | binary left operator right => binary left.unvalued operator right.unvalued

/-- The statement, with nothing kept of the integers that its numerals are said to denote. -/
def Statement.unvalued : Statement → Statement
  | binding token name value => binding token name value.unvalued
  | returning token value => returning token value.unvalued
  | expression token value => expression token value.unvalued

/-- The kind of the token admits its text. -/
def Token.WellSpelled (t : Token) : Prop := t.kind.Admits t.literal

/-- Each node is made of a token of its sort that is spelled as its kind has it.  Any operator may stand
before an operand or between two. -/
def Expression.WellSpelled : Expression → Prop
  | name token => token.kind = .name ∧ token.WellSpelled
  | integer token _ => token.kind = .integer ∧ token.WellSpelled
  | unary operator operand =>
    (∃ o, operator.kind = .operator o) ∧ operator.WellSpelled ∧ operand.WellSpelled
  | binary left operator right =>
    (∃ o, operator.kind = .operator o) ∧ operator.WellSpelled ∧
      left.WellSpelled ∧ right.WellSpelled

/-- The statement and its value are made of tokens that are spelled as their kinds have it, and an
expression by itself begins with the token of its statement. -/
def Statement.WellSpelled : Statement → Prop
  | binding token name value =>
    token.kind = .keyword .kwLet ∧ token.WellSpelled ∧ name.kind = .name ∧ name.WellSpelled ∧
      value.WellSpelled
  | returning token value =>
    token.kind = .keyword .kwReturn ∧ token.WellSpelled ∧ value.WellSpelled
  | expression token value => value.tokens.head? = some token ∧ value.WellSpelled

/-- The parenthesis in front of an operator and its operands. -/
def openToken : Token := ⟨.punctuation .leftParen, "(", .point 0⟩

/-- The parenthesis behind an operator and its operands. -/
def closeToken : Token := ⟨.punctuation .rightParen, ")", .point 0⟩

/-- The tokens of the text of an expression. -/
def Expression.written : Expression → List Token
  | name token => [token]
  | integer token _ => [token]
  | unary operator operand => openToken :: operator :: (operand.written ++ [closeToken])
  | binary left operator right =>
    openToken :: (left.written ++ operator :: (right.written ++ [closeToken]))

/-- The tokens of the text of a statement. -/
def Statement.written : Statement → List Token
  | binding token name value =>
    token :: name :: signToken.unplaced :: (value.written ++ [markToken.unplaced])
  | returning token value => token :: (value.written ++ [markToken.unplaced])
  | expression _ value => value.written

/-! ## Trees without their places and values -/

namespace Expression

theorem text_unvalued (e : Expression) : e.unvalued.text = e.text := by
  induction e with
  | name | integer => rfl
  | unary operator operand ih => rw [unvalued, text, text, ih]
  | binary left operator right ihl ihr => rw [unvalued, text, text, ihl, ihr]

theorem text_unplaced (e : Expression) : e.unplaced.text = e.text := text_mapSpan _ e

theorem tokens_unvalued (e : Expression) : e.unvalued.tokens = e.tokens := by
  induction e with
  | name | integer => rfl
  | unary operator operand ih => rw [unvalued, tokens, tokens, ih]
  | binary left operator right ihl ihr => rw [unvalued, tokens, tokens, ihl, ihr]

theorem wellSpelled_mapSpan {f : Span → Span} {e : Expression} (h : e.WellSpelled) :
    (e.mapSpan f).WellSpelled := by
  induction e with
  | name | integer => exact h
  | unary operator operand ih => exact ⟨h.1, h.2.1, ih h.2.2⟩
  | binary left operator right ihl ihr => exact ⟨h.1, h.2.1, ihl h.2.2.1, ihr h.2.2.2⟩

theorem written_unplaced (e : Expression) : e.unplaced.written = e.written.map Token.unplaced := by
  induction e with
  | name | integer => rfl
  | unary operator operand ih =>
    simp only [unplaced, mapSpan, written, List.map_cons, List.map_append, List.map_nil] at ih ⊢
    rw [ih]
    rfl
  | binary left operator right ihl ihr =>
    simp only [unplaced, mapSpan, written, List.map_cons, List.map_append, List.map_nil] at ihl ihr ⊢
    rw [ihl, ihr]
    rfl

end Expression

namespace Statement

theorem text_unvalued (s : Statement) : s.unvalued.text = s.text := by
  cases s <;> simp only [unvalued, text, Expression.text_unvalued]

theorem text_unplaced (s : Statement) : s.unplaced.text = s.text := text_mapSpan _ s

theorem written_unplaced (s : Statement) : s.unplaced.written = s.written.map Token.unplaced := by
  have h (e : Expression) : (e.mapSpan fun _ => .point 0).written = e.written.map Token.unplaced :=
    e.written_unplaced
  cases s with
  | binding | returning =>
    simp only [unplaced, mapSpan, written, h, List.map_cons, List.map_append, List.map_nil]
    rfl
  | expression => exact h _

end Statement

/-! ## A text scans to its tokens -/

/-- A token that is spelled as its kind has it scans to itself, unless it is the end of the text. -/
theorem Token.WellSpelled.spelled {t : Token} (h : t.WellSpelled) (ht : t.kind ≠ .endOfText) :
    t.Spelled := by
  cases hlit : t.literal.toList with
  | nil =>
    rw [WellSpelled, String.toList_eq_nil_iff.1 hlit] at h
    exact absurd (TokenKind.admits_empty_iff.1 h) ht
  | cons c cs =>
    have htext : t.literal = String.ofList (c :: cs) := by rw [← hlit, String.ofList_toList]
    have hadmits : t.kind.Admits (String.ofList (c :: cs)) := htext ▸ h
    have hcut := Munch.ofCons_of_admits hadmits
    refine ⟨c, cs, ?_, hlit, hcut⟩
    rw [← Bool.not_eq_true]
    intro hc
    -- A blank could only be an illegal token, and none of these is a blank.
    have hillegal : t.kind = .illegal := by
      have hmem : c ∈ (Munch.ofCons c cs).literal := by
        rw [hcut]
        exact List.mem_cons_self
      have hone (hassign : c ≠ '=') (hbang : c ≠ '!') : Onset.ofChar c = .single t.kind := by
        rw [Munch.ofChar_of_mem_literal hmem (isLetter_of_isBlank hc) (isDigit_of_isBlank hc) hassign
          hbang, hcut]
      rcases isBlank_iff.1 hc with rfl | rfl | rfl | rfl <;>
        exact (Onset.single.inj (hone (by decide) (by decide))).symm
    rw [hillegal] at hadmits
    obtain ⟨d, hd, hblank, -⟩ := hadmits
    rw [String.singleton_eq_ofList] at hd
    obtain ⟨rfl, rfl⟩ := List.cons.inj (String.ofList_injective hd)
    rw [hblank] at hc
    cases hc

theorem openToken_spelled : openToken.Spelled := ⟨'(', [], by decide, by decide, by decide⟩

theorem closeToken_spelled : closeToken.Spelled := ⟨')', [], by decide, by decide, by decide⟩

theorem Spells.openToken {cs : List Char} {ts : List Token} (h : Spells cs ts) :
    Spells ('(' :: cs) (openToken :: ts) :=
  .token openToken_spelled (fun _ _ => rfl) h

theorem Spells.closeToken {cs : List Char} {ts : List Token} (h : Spells cs ts) :
    Spells (')' :: cs) (closeToken :: ts) :=
  .token closeToken_spelled (fun _ _ => rfl) h

theorem delimits_closeToken (cs : List Char) : Delimits (')' :: cs) := by
  intro d hd
  cases hd
  decide

namespace Expression

/-- The text of an expression begins with a parenthesis or with a leaf. -/
theorem WellSpelled.exists_head {e : Expression} (h : e.WellSpelled) :
    ∃ t ts, e.written = t :: ts ∧ (∀ o, t.kind ≠ .operator o) ∧ ∀ k, t.kind ≠ .keyword k := by
  cases e with
  | name token => exact ⟨token, [], rfl, by simp [h.1], by simp [h.1]⟩
  | integer token value => exact ⟨token, [], rfl, by simp [h.1], by simp [h.1]⟩
  | unary | binary => exact ⟨openToken, _, rfl, by simp [openToken], by simp [openToken]⟩

theorem toList_text_unary (operator : Token) (operand : Expression) (cs : List Char) :
    (unary operator operand).text.toList ++ cs =
      '(' :: (operator.literal.toList ++ (operand.text.toList ++ ')' :: cs)) := by
  have hopen : "(".toList = ['('] := by decide
  have hclose : ")".toList = [')'] := by decide
  simp only [text, String.toList_append, hopen, hclose, List.append_assoc, List.cons_append,
    List.nil_append]

theorem toList_text_binary (left : Expression) (operator : Token) (right : Expression)
    (cs : List Char) :
    (binary left operator right).text.toList ++ cs =
      '(' :: (left.text.toList ++
        ' ' :: (operator.literal.toList ++ ' ' :: (right.text.toList ++ ')' :: cs))) := by
  have hopen : "(".toList = ['('] := by decide
  have hspace : " ".toList = [' '] := by decide
  have hclose : ")".toList = [')'] := by decide
  simp only [text, String.toList_append, hopen, hspace, hclose, List.append_assoc,
    List.cons_append, List.nil_append]

/-- The text of an expression spells its tokens, in front of anything that delimits the last. -/
theorem spells_written {e : Expression} (he : e.WellSpelled) {cs : List Char} {ts : List Token}
    (h : Spells cs ts) (hcs : Delimits cs) :
    Spells (e.text.toList ++ cs) (e.written ++ ts) := by
  induction e generalizing cs ts with
  | name token =>
    obtain ⟨hk, hs⟩ := he
    refine .token (hs.spelled (by simp [hk])) (fun d hd => ?_) h
    rw [hk]
    exact (hcs d hd).1
  | integer token value =>
    obtain ⟨hk, hs⟩ := he
    refine .token (hs.spelled (by simp [hk])) (fun d hd => ?_) h
    rw [hk]
    exact (hcs d hd).2
  | unary operator operand ih =>
    obtain ⟨⟨o, hk⟩, hs, hoperand⟩ := he
    obtain ⟨t, us, hus, hoperator, -⟩ := hoperand.exists_head
    have hrest := ih hoperand h.closeToken (delimits_closeToken cs)
    have hrow : Spells (operand.text.toList ++ ')' :: cs) (t :: (us ++ closeToken :: ts)) := by
      rw [← List.cons_append, ← hus]
      exact hrest
    have habsorbs : ∀ d ∈ (operand.text.toList ++ ')' :: cs).head?,
        operator.kind.absorbs d = false := by
      intro d hd
      rw [hk]
      refine TokenKind.absorbs_operator o ?_
      rintro rfl
      rcases hrow.kind_of_head?_eq_assign hd with ht | ht
      · exact hoperator _ ht
      · exact hoperator _ ht
    have hall := (Spells.token (hs.spelled (by simp [hk])) habsorbs hrest).openToken
    rw [toList_text_unary, written, List.cons_append, List.cons_append, List.append_assoc]
    exact hall
  | binary left operator right ihl ihr =>
    obtain ⟨⟨o, hk⟩, hs, hleft, hright⟩ := he
    have hblank : isBlank ' ' := by decide
    have hr := ihr hright h.closeToken (delimits_closeToken cs)
    have hoperator := hr.token_blank (hs.spelled (by simp [hk]))
    have hl := ihl hleft (.blank hblank hoperator) (delimits_cons_blank hblank _)
    rw [toList_text_binary, written, List.cons_append, List.append_assoc, List.cons_append,
      List.append_assoc]
    exact hl.openToken

/-! ## A row of tokens has one tree -/

/-- An operator is not the first token of an expression. -/
theorem WellSpelled.operator_cons_ne {e : Expression} (h : e.WellSpelled) {operator : Token}
    (ho : ∃ o, operator.kind = .operator o) (ts us : List Token) :
    operator :: ts ≠ e.written ++ us := by
  obtain ⟨t, vs, hvs, hoperator, -⟩ := h.exists_head
  obtain ⟨o, hk⟩ := ho
  intro heq
  rw [hvs, List.cons_append] at heq
  obtain ⟨rfl, -⟩ := List.cons.inj heq
  exact hoperator o hk

/-- Where the rows of two expressions begin alike, with anything behind them, they are the rows of
the same expression. -/
theorem written_append_inj {e f : Expression} (he : e.WellSpelled) (hf : f.WellSpelled)
    {ts us : List Token} (h : e.written ++ ts = f.written ++ us) :
    e.unvalued = f.unvalued ∧ ts = us := by
  induction e generalizing f ts us with
  | name token =>
    obtain ⟨hk, -⟩ := he
    cases f with
    | name token' =>
      obtain ⟨rfl, rfl⟩ := List.cons.inj h
      exact ⟨rfl, rfl⟩
    | integer token' value' =>
      obtain ⟨rfl, -⟩ := List.cons.inj h
      rw [hf.1] at hk
      cases hk
    | unary | binary =>
      obtain ⟨rfl, -⟩ := List.cons.inj h
      cases hk
  | integer token value =>
    obtain ⟨hk, -⟩ := he
    cases f with
    | name token' =>
      obtain ⟨rfl, -⟩ := List.cons.inj h
      rw [hf.1] at hk
      cases hk
    | integer token' value' =>
      obtain ⟨rfl, rfl⟩ := List.cons.inj h
      exact ⟨rfl, rfl⟩
    | unary | binary =>
      obtain ⟨rfl, -⟩ := List.cons.inj h
      cases hk
  | unary operator operand ih =>
    cases f with
    | name token' | integer token' value' =>
      obtain ⟨rfl, -⟩ := List.cons.inj h
      cases hf.1
    | unary operator' operand' =>
      simp only [written, List.cons_append, List.append_assoc, List.cons.injEq, true_and,
        List.nil_append] at h
      obtain ⟨rfl, hoperand⟩ := h
      obtain ⟨heq, hrest⟩ := ih he.2.2 hf.2.2 hoperand
      rw [unvalued, unvalued, heq]
      exact ⟨rfl, (List.cons.inj hrest).2⟩
    | binary left' operator' right' =>
      simp only [written, List.cons_append, List.append_assoc, List.cons.injEq, true_and] at h
      exact absurd h (hf.2.2.1.operator_cons_ne he.1 _ _)
  | binary left operator right ihl ihr =>
    cases f with
    | name token' | integer token' value' =>
      obtain ⟨rfl, -⟩ := List.cons.inj h
      cases hf.1
    | unary operator' operand' =>
      simp only [written, List.cons_append, List.append_assoc, List.cons.injEq, true_and] at h
      exact absurd h.symm (he.2.2.1.operator_cons_ne hf.1 _ _)
    | binary left' operator' right' =>
      simp only [written, List.cons_append, List.append_assoc, List.cons.injEq, true_and,
        List.nil_append] at h
      obtain ⟨hleft, hrow⟩ := ihl he.2.2.1 hf.2.2.1 h
      obtain ⟨rfl, hoperand⟩ := List.cons.inj hrow
      obtain ⟨hright, hrest⟩ := ihr he.2.2.2 hf.2.2.2 hoperand
      rw [unvalued, unvalued, hleft, hright]
      exact ⟨rfl, (List.cons.inj hrest).2⟩

theorem written_inj {e f : Expression} (he : e.WellSpelled) (hf : f.WellSpelled)
    (h : e.written = f.written) : e.unvalued = f.unvalued := by
  rw [← List.append_nil e.written, ← List.append_nil f.written] at h
  exact (written_append_inj he hf h).1

end Expression

namespace Statement

theorem wellSpelled_mapSpan {f : Span → Span} {s : Statement} (h : s.WellSpelled) :
    (s.mapSpan f).WellSpelled := by
  cases s with
  | binding token name value =>
    obtain ⟨ht, hts, hn, hns, hv⟩ := h
    exact ⟨ht, hts, hn, hns, Expression.wellSpelled_mapSpan hv⟩
  | returning token value =>
    obtain ⟨ht, hts, hv⟩ := h
    exact ⟨ht, hts, Expression.wellSpelled_mapSpan hv⟩
  | expression token value =>
    obtain ⟨ht, hv⟩ := h
    refine ⟨?_, Expression.wellSpelled_mapSpan hv⟩
    rw [Expression.tokens_mapSpan, List.head?_map, ht]
    rfl

/-- A keyword is not the first token of an expression. -/
theorem keyword_cons_ne {e : Expression} (h : e.WellSpelled) {token : Token} {k : Keyword}
    (hk : token.kind = .keyword k) (ts : List Token) : token :: ts ≠ e.written := by
  obtain ⟨t, us, hus, -, hkeyword⟩ := h.exists_head
  intro heq
  rw [hus] at heq
  obtain ⟨rfl, -⟩ := List.cons.inj heq
  exact hkeyword k hk

/-- A row of tokens is that of one statement. -/
theorem written_inj {s s' : Statement} (hs : s.WellSpelled) (hs' : s'.WellSpelled)
    (h : s.written = s'.written) : s.unvalued = s'.unvalued := by
  cases s with
  | binding token name value =>
    obtain ⟨ht, -, -, -, hv⟩ := hs
    cases s' with
    | binding token' name' value' =>
      obtain ⟨-, -, -, -, hv'⟩ := hs'
      simp only [written, List.cons.injEq, true_and] at h
      obtain ⟨rfl, rfl, hvalue⟩ := h
      rw [unvalued, unvalued, (Expression.written_append_inj hv hv' hvalue).1]
    | returning token' value' =>
      obtain ⟨rfl, -⟩ := List.cons.inj h
      rw [hs'.1] at ht
      cases ht
    | expression token' value' => exact absurd h (keyword_cons_ne hs'.2 ht _)
  | returning token value =>
    obtain ⟨ht, -, hv⟩ := hs
    cases s' with
    | binding token' name' value' =>
      obtain ⟨rfl, -⟩ := List.cons.inj h
      rw [hs'.1] at ht
      cases ht
    | returning token' value' =>
      obtain ⟨rfl, hvalue⟩ := List.cons.inj h
      rw [unvalued, unvalued, (Expression.written_append_inj hv hs'.2.2 hvalue).1]
    | expression token' value' => exact absurd h (keyword_cons_ne hs'.2 ht _)
  | expression token value =>
    obtain ⟨ht, hv⟩ := hs
    cases s' with
    | binding token' name' value' => exact absurd h.symm (keyword_cons_ne hv hs'.1 _)
    | returning token' value' => exact absurd h.symm (keyword_cons_ne hv hs'.1 _)
    | expression token' value' =>
      obtain ⟨ht', hv'⟩ := hs'
      have heq := Expression.written_inj hv hv' h
      rw [← Expression.tokens_unvalued, heq, Expression.tokens_unvalued, ht'] at ht
      cases ht
      rw [unvalued, unvalued, heq]

/-- The text of a statement spells its tokens. -/
theorem spells_written {s : Statement} (h : s.WellSpelled) : Spells s.text.toList s.written := by
  have hspace : " ".toList = [' '] := by decide
  have hsign : " = ".toList = ' ' :: (signToken.unplaced.literal.toList ++ [' ']) := by decide
  have hmark : ";".toList = markToken.unplaced.literal.toList := by decide
  have hsigned : signToken.unplaced.Spelled := signToken_spelled
  have hend : Spells (markToken.unplaced.literal.toList ++ []) [markToken.unplaced] :=
    .token markToken_spelled (by simp) .nil
  rw [List.append_nil] at hend
  have hdelimits : Delimits markToken.unplaced.literal.toList := by
    intro d hd
    cases hd
    decide
  cases s with
  | binding token name value =>
    obtain ⟨ht, hts, hn, hns, hv⟩ := h
    have hvalue := Expression.spells_written hv hend hdelimits
    have hrow := ((hvalue.token_blank hsigned).token_blank
      (hns.spelled (by simp [hn]))).token_blank (hts.spelled (by simp [ht]))
    simpa only [text, written, String.toList_append, hspace, hsign, hmark, List.append_assoc,
      List.cons_append, List.nil_append] using hrow
  | returning token value =>
    obtain ⟨ht, hts, hv⟩ := h
    have hvalue := Expression.spells_written hv hend hdelimits
    have hrow := hvalue.token_blank (hts.spelled (by simp [ht]))
    simpa only [text, written, String.toList_append, hspace, hmark, List.append_assoc,
      List.cons_append, List.nil_append] using hrow
  | expression token value =>
    have hvalue := Expression.spells_written h.2 .nil delimits_nil
    rwa [List.append_nil, List.append_nil] at hvalue

end Statement

/-! ## Texts -/

/-- A text spells one row of tokens, but for their places. -/
theorem Spells.map_unplaced_inj {cs : List Char} {ts us : List Token} (h : Spells cs ts)
    (h' : Spells cs us) : ts.map Token.unplaced = us.map Token.unplaced :=
  (Cursor.tokens_of_spells h 0).symm.trans (Cursor.tokens_of_spells h' 0)

theorem Expression.text_eq_iff {e f : Expression} (he : e.WellSpelled) (hf : f.WellSpelled) :
    e.text = f.text ↔ e.unplaced.unvalued = f.unplaced.unvalued := by
  constructor
  · intro h
    have hrow := spells_written he .nil delimits_nil
    have hrow' := spells_written hf .nil delimits_nil
    rw [List.append_nil, List.append_nil] at hrow hrow'
    rw [h] at hrow
    have hmap := hrow.map_unplaced_inj hrow'
    rw [← written_unplaced, ← written_unplaced] at hmap
    exact written_inj (wellSpelled_mapSpan he) (wellSpelled_mapSpan hf) hmap
  · intro h
    have htext := congrArg text h
    rwa [text_unvalued, text_unvalued, text_unplaced, text_unplaced] at htext

theorem Statement.text_eq_iff {s s' : Statement} (hs : s.WellSpelled) (hs' : s'.WellSpelled) :
    s.text = s'.text ↔ s.unplaced.unvalued = s'.unplaced.unvalued := by
  constructor
  · intro h
    have hrow := spells_written hs
    rw [h] at hrow
    have hmap := hrow.map_unplaced_inj (spells_written hs')
    rw [← written_unplaced, ← written_unplaced] at hmap
    exact written_inj (wellSpelled_mapSpan hs) (wellSpelled_mapSpan hs') hmap
  · intro h
    have htext := congrArg text h
    rwa [text_unvalued, text_unvalued, text_unplaced, text_unplaced] at htext

/-- **The text of a tree tells the tree.**  Two expressions that are made of tokens of the language have
the same text exactly if they are the same, but for the places of their tokens and the integers that
their numerals are said to denote; and so have two statements. -/
theorem text_determines_tree :
    (∀ e f : Expression, e.WellSpelled → f.WellSpelled →
      (e.text = f.text ↔ e.unplaced.unvalued = f.unplaced.unvalued)) ∧
    ∀ s s' : Statement, s.WellSpelled → s'.WellSpelled →
      (s.text = s'.text ↔ s.unplaced.unvalued = s'.unplaced.unvalued) :=
  ⟨fun _ _ he hf => Expression.text_eq_iff he hf, fun _ _ hs hs' => Statement.text_eq_iff hs hs'⟩

/-- Two trees that no text parses to, with the sign `==` in front of an operand and the sign `!` between
two, have one text wherever their tokens stand; with the operands grouped another way the text is
another. -/
theorem text_determines_tree_of_odd_operators :
    let equal (n : Nat) : Token := .ofText (.operator .equal) "==" n
    let bang : Token := .ofText (.operator .bang) "!" 6
    let a (n : Nat) : Token := .ofText .name "a" n
    let seven : Token := .ofText .integer "007" 2
    let e : Expression := .unary (equal 0) (.binary (.name (a 9)) bang (.integer seven 7))
    let f : Expression := .unary (equal 4) (.binary (.name (a 1)) bang (.integer seven 0))
    let g : Expression := .binary (.unary (equal 0) (.name (a 9))) bang (.integer seven 7)
    let s (e : Expression) : Statement :=
      .binding (.ofText (.keyword .kwLet) "let" 0) (.ofText .name "x" 4) e
    e.WellSpelled ∧ f.WellSpelled ∧ g.WellSpelled ∧
      e.text = "(==(a ! 007))" ∧ e.unplaced.unvalued = f.unplaced.unvalued ∧ e.text ≠ g.text ∧
      (s e).WellSpelled ∧ (s f).WellSpelled ∧ (s g).WellSpelled ∧
      (s e).unplaced.unvalued = (s f).unplaced.unvalued ∧ (s e).text ≠ (s g).text := by
  intro equal bang a seven e f g s
  have hequal (n : Nat) : (∃ o, (equal n).kind = .operator o) ∧ (equal n).WellSpelled :=
    ⟨⟨.equal, rfl⟩, rfl⟩
  have hbang : (∃ o, bang.kind = .operator o) ∧ bang.WellSpelled := ⟨⟨.bang, rfl⟩, rfl⟩
  have hname {text : String} (hne : text ≠ "") (hletters : text.toList.all isLetter)
      (hword : Keyword.ofSpelling? text = none) : TokenKind.name.Admits text :=
    ⟨hne, List.all_eq_true.1 hletters, hword⟩
  have hletter : TokenKind.name.Admits "a" := hname (by decide) (by decide) (by decide)
  have hdigits : "007".toList.all isDigit := by decide
  have ha (n : Nat) : (Expression.name (a n)).WellSpelled := ⟨rfl, hletter⟩
  have hseven (v : Int) : (Expression.integer seven v).WellSpelled :=
    ⟨rfl, by decide, List.all_eq_true.1 hdigits⟩
  have hs {e : Expression} (he : e.WellSpelled) : (s e).WellSpelled :=
    ⟨rfl, rfl, rfl, hname (by decide) (by decide) (by decide), he⟩
  have he : e.WellSpelled :=
    ⟨(hequal 0).1, (hequal 0).2, hbang.1, hbang.2, ha 9, hseven 7⟩
  have hf : f.WellSpelled :=
    ⟨(hequal 4).1, (hequal 4).2, hbang.1, hbang.2, ha 1, hseven 0⟩
  have hg : g.WellSpelled :=
    ⟨hbang.1, hbang.2, ⟨(hequal 0).1, (hequal 0).2, ha 9⟩, hseven 7⟩
  have htree : e.unplaced.unvalued ≠ g.unplaced.unvalued := by decide
  refine ⟨he, hf, hg, by decide, (text_determines_tree.1 e f he hf).1 (by decide), ?_, hs he, hs hf,
    hs hg, (text_determines_tree.2 (s e) (s f) (hs he) (hs hf)).1 (by decide), ?_⟩
  · exact fun h => htree ((text_determines_tree.1 e g he hg).1 h)
  · have hstatement : (s e).unplaced.unvalued ≠ (s g).unplaced.unvalued := by decide
    exact fun h => hstatement ((text_determines_tree.2 (s e) (s g) (hs he) (hs hg)).1 h)

end MonkeyLang
