import MonkeyLang.Proofs.Inclusion
import MonkeyLang.Proofs.Spelling

/-!
# The text of a statement parses to the statement

The text of a tree is in full parentheses, and the language has none.  This file shows that they are
not needed: with every parenthesis deleted the text still spells the tokens of the tree
(`Expression.spells_text`), and since precedence alone gives a tree its shape, that row of tokens has
one reading, the tree itself (`parse_withoutParens_text`).

What could go wrong at a deleted parenthesis is that two tokens become one.  Around a binary operator
there are blanks.  Behind a unary operator stands an operand, and no operand begins with the sign `=`,
the one character that the operator `!` would take.
-/

namespace MonkeyLang

open Character

/-- A parenthesis, of either side. -/
def Character.isParen (c : Char) : Bool := c == '(' || c == ')'

/-- The characters that are no parentheses. -/
def dropParens (cs : List Char) : List Char := cs.filter fun c => !isParen c

/-- The text with every parenthesis deleted. -/
def withoutParens (text : String) : String := String.ofList (dropParens text.toList)

/-- No word and no numeral goes on with the first of the characters. -/
def Delimits (cs : List Char) : Prop := ∀ d ∈ cs.head?, isLetter d = false ∧ isDigit d = false

@[simp] theorem dropParens_append (as bs : List Char) :
    dropParens (as ++ bs) = dropParens as ++ dropParens bs := List.filter_append as bs

/-- Only the parentheses are tokens with a parenthesis in them. -/
theorem Token.Spelled.dropParens_literal {t : Token} (h : t.Spelled)
    (ht : ∀ p, t.kind ≠ .punctuation p) : dropParens t.literal.toList = t.literal.toList := by
  obtain ⟨c, l, -, hlit, hm⟩ := h
  refine List.filter_eq_self.2 fun x hx => ?_
  have hmem : x ∈ (Munch.ofCons c l).literal := by
    rw [hm, ← hlit]
    exact hx
  have hkind (hl : isLetter x = false) (hd : isDigit x = false) (ha : x ≠ '=') (hb : x ≠ '!') :
      Onset.ofChar x = .single t.kind := by
    rw [Munch.ofChar_of_mem_literal hmem hl hd ha hb, hm]
  rw [Bool.not_eq_true', ← Bool.not_eq_true]
  intro hparen
  have hx' : x = '(' ∨ x = ')' := by simpa [isParen] using hparen
  rcases hx' with rfl | rfl
  · exact ht .leftParen (Onset.single.inj (hkind (by decide) (by decide) (by decide) (by decide))).symm
  · exact ht .rightParen (Onset.single.inj (hkind (by decide) (by decide) (by decide) (by decide))).symm

/-! ## What a text spells -/

theorem TokenKind.ne_punctuation {kind : TokenKind} (h : kind.isUnary ∨ kind.isBinary)
    (p : Punctuation) : kind ≠ .punctuation p := by
  rintro rfl
  rcases h with h | h
  · cases h
  · cases h

/-- An operator goes on with no character but the sign `=`. -/
theorem TokenKind.absorbs_operator (o : Operator) {d : Char} (hd : d ≠ '=') :
    (operator o).absorbs d = false := by
  cases o with
  | assign | bang => exact beq_false_of_ne hd
  | _ => rfl

theorem TokenKind.absorbs_of_isUnary {kind : TokenKind} {d : Char} (h : kind.isUnary)
    (hd : d ≠ '=') : kind.absorbs d = false := by
  cases kind with
  | operator o => exact absorbs_operator o hd
  | _ => cases h

/-- A text that begins with the sign `=` spells an operator first. -/
theorem Spells.kind_of_head?_eq_assign {cs : List Char} {t : Token} {ts : List Token}
    (h : Spells cs (t :: ts)) (hd : cs.head? = some '=') :
    t.kind = .operator .assign ∨ t.kind = .operator .equal := by
  cases h with
  | blank hc =>
    cases hd
    cases hc
  | token hs =>
    obtain ⟨c, l, -, hlit, hm⟩ := hs
    rw [hlit] at hd
    cases hd
    have hk := Munch.kind_ofCons_assign l
    rwa [hm] at hk

/-- No operand begins with the sign `=`. -/
theorem Spells.head?_ne_assign {cs : List Char} {t : Token} {ts : List Token}
    (h : Spells cs (t :: ts)) (ht : t.kind.beginsOperand) : ∀ d ∈ cs.head?, d ≠ '=' := by
  rintro d hd rfl
  rcases h.kind_of_head?_eq_assign hd with hk | hk
  · rw [hk] at ht
    cases ht
  · rw [hk] at ht
    cases ht

/-- A blank ends every token. -/
theorem Spells.token_blank {t : Token} {cs : List Char} {ts : List Token} (ht : t.Spelled)
    (h : Spells cs ts) : Spells (t.literal.toList ++ ' ' :: cs) (t :: ts) := by
  have hblank : isBlank ' ' := by decide
  refine .token ht (fun d hd => ?_) (.blank hblank h)
  cases hd
  exact TokenKind.absorbs_of_isBlank _ hblank

theorem delimits_nil : Delimits [] := by
  intro d hd
  cases hd

theorem delimits_cons_blank {c : Char} (hc : isBlank c) (cs : List Char) : Delimits (c :: cs) := by
  intro d hd
  cases hd
  exact ⟨isLetter_of_isBlank hc, isDigit_of_isBlank hc⟩

namespace Expression

theorem dropParens_text_unary {operator : Token} (ht : operator.Spelled)
    (hk : operator.kind.isUnary) (operand : Expression) :
    dropParens (unary operator operand).text.toList =
      operator.literal.toList ++ dropParens operand.text.toList := by
  have hopen : dropParens "(".toList = [] := by decide
  have hclose : dropParens ")".toList = [] := by decide
  have hlit := ht.dropParens_literal (TokenKind.ne_punctuation (Or.inl hk))
  simp only [text, String.toList_append, dropParens_append, hopen, hclose, hlit, List.nil_append,
    List.append_nil]

theorem dropParens_text_binary {operator : Token} (ht : operator.Spelled)
    (hk : operator.kind.isBinary) (left right : Expression) :
    dropParens (binary left operator right).text.toList =
      dropParens left.text.toList ++
        ' ' :: (operator.literal.toList ++ ' ' :: dropParens right.text.toList) := by
  have hopen : dropParens "(".toList = [] := by decide
  have hclose : dropParens ")".toList = [] := by decide
  have hspace : dropParens " ".toList = [' '] := by decide
  have hlit := ht.dropParens_literal (TokenKind.ne_punctuation (Or.inr hk))
  simp only [text, String.toList_append, dropParens_append, hopen, hclose, hspace, hlit,
    List.nil_append, List.append_nil, List.append_assoc, List.cons_append]

/-- The text of an expression spells its tokens, in front of anything that delimits the last. -/
theorem spells_text {e : Expression} (he : e.WellFormed) (hs : ∀ t ∈ e.tokens, t.Spelled)
    {cs : List Char} {ts : List Token} (h : Spells cs ts) (hcs : Delimits cs) :
    Spells (dropParens e.text.toList ++ cs) (e.tokens ++ ts) := by
  induction e generalizing cs ts with
  | name token =>
    have hk : token.kind = .name := he
    have ht : token.Spelled := hs token List.mem_cons_self
    rw [text, ht.dropParens_literal (by simp [hk])]
    refine .token ht (fun d hd => ?_) h
    rw [hk]
    exact (hcs d hd).1
  | integer token value =>
    have hk : token.kind = .integer := he.1
    have ht : token.Spelled := hs token List.mem_cons_self
    rw [text, ht.dropParens_literal (by simp [hk])]
    refine .token ht (fun d hd => ?_) h
    rw [hk]
    exact (hcs d hd).2
  | unary operator operand ih =>
    obtain ⟨ht, hoperand⟩ := List.forall_mem_cons.1 hs
    obtain ⟨t, us, hus, hb⟩ := he.2.exists_head
    have hrest := ih he.2 hoperand h hcs
    have hrow : Spells (dropParens operand.text.toList ++ cs) (t :: (us ++ ts)) := by
      rw [← List.cons_append, ← hus]
      exact hrest
    have hne := hrow.head?_ne_assign hb
    rw [dropParens_text_unary ht he.1, List.append_assoc]
    exact .token ht (fun d hd => TokenKind.absorbs_of_isUnary he.1 (hne d hd)) hrest
  | binary left operator right ihl ihr =>
    obtain ⟨hleft, hs'⟩ := List.forall_mem_append.1 hs
    obtain ⟨ht, hright⟩ := List.forall_mem_cons.1 hs'
    have hblank : isBlank ' ' := by decide
    have hr := ihr he.2.2 hright h hcs
    have hl := ihl he.2.1 hleft (.blank hblank (hr.token_blank ht)) (delimits_cons_blank hblank _)
    rw [dropParens_text_binary ht he.1, tokens]
    simp only [List.append_assoc, List.cons_append]
    exact hl

end Expression

/-! ## Statements

A tree keeps neither the sign of a binding nor the semicolon behind a statement.  The text has both, so
the row that it spells has two tokens that are in no tree. -/

/-- The sign of a binding. -/
def signToken : Token := .ofText (.operator .assign) "=" 0

/-- The semicolon behind a statement. -/
def markToken : Token := .ofText .semicolon ";" 0

theorem signToken_spelled : signToken.Spelled := ⟨'=', [], by decide, by decide, by decide⟩

theorem markToken_spelled : markToken.Spelled := ⟨';', [], by decide, by decide, by decide⟩

theorem Expression.spells_text_semicolon {e : Expression} (he : e.WellFormed)
    (hs : ∀ t ∈ e.tokens, t.Spelled) :
    Spells (dropParens e.text.toList ++ [';']) (e.tokens ++ [markToken]) := by
  have hlit : markToken.literal.toList = [';'] := by decide
  have hmark : Spells (markToken.literal.toList ++ []) [markToken] :=
    .token markToken_spelled (by simp) .nil
  rw [List.append_nil, hlit] at hmark
  refine spells_text he hs hmark ?_
  intro d hd
  cases hd
  decide

namespace Statement

theorem spells_text_binding {token name : Token} {value : Expression} (ht : token.Spelled)
    (htk : token.kind = .keyword .kwLet) (hn : name.Spelled) (hnk : name.kind = .name)
    (h : Spells (dropParens value.text.toList ++ [';']) (value.tokens ++ [markToken])) :
    Spells (dropParens (binding token name value).text.toList)
      (token :: name :: signToken :: (value.tokens ++ [markToken])) := by
  have hspace : dropParens " ".toList = [' '] := by decide
  have hsign : dropParens " = ".toList = ' ' :: (signToken.literal.toList ++ [' ']) := by decide
  have hmark : dropParens ";".toList = [';'] := by decide
  have htlit := ht.dropParens_literal (by simp [htk])
  have hnlit := hn.dropParens_literal (by simp [hnk])
  have htext : dropParens (binding token name value).text.toList =
      token.literal.toList ++ ' ' :: (name.literal.toList ++ ' ' :: (signToken.literal.toList ++
        ' ' :: (dropParens value.text.toList ++ [';']))) := by
    simp only [text, String.toList_append, dropParens_append, hspace, hsign, hmark, htlit, hnlit,
      List.append_assoc, List.cons_append, List.nil_append]
  rw [htext]
  exact ((h.token_blank signToken_spelled).token_blank hn).token_blank ht

theorem spells_text_returning {token : Token} {value : Expression} (ht : token.Spelled)
    (htk : token.kind = .keyword .kwReturn)
    (h : Spells (dropParens value.text.toList ++ [';']) (value.tokens ++ [markToken])) :
    Spells (dropParens (returning token value).text.toList)
      (token :: (value.tokens ++ [markToken])) := by
  have hspace : dropParens " ".toList = [' '] := by decide
  have hmark : dropParens ";".toList = [';'] := by decide
  have htlit := ht.dropParens_literal (by simp [htk])
  have htext : dropParens (returning token value).text.toList =
      token.literal.toList ++ ' ' :: (dropParens value.text.toList ++ [';']) := by
    simp only [text, String.toList_append, dropParens_append, hspace, hmark, htlit,
      List.append_assoc, List.cons_append, List.nil_append]
  rw [htext]
  exact h.token_blank ht

/-- The text of a statement spells a row of tokens that the statement is written with. -/
theorem exists_spells_text {s : Statement} {row : List Token} (h : s.WrittenWith row)
    (hv : s.value.WellFormed) (hs : ∀ t ∈ row, t.Spelled) :
    ∃ row', Spells (dropParens s.text.toList) row' ∧ Program.WrittenWith [s] row' := by
  cases h with
  | binding ht hn ha =>
    obtain ⟨hts, hs⟩ := List.forall_mem_cons.1 hs
    obtain ⟨hns, hs⟩ := List.forall_mem_cons.1 hs
    obtain ⟨-, hs⟩ := List.forall_mem_cons.1 hs
    have hvalue := Expression.spells_text_semicolon hv hs
    exact ⟨_, spells_text_binding hts ht hns hn hvalue, .ended (.binding ht hn rfl) rfl .nil⟩
  | returning ht =>
    obtain ⟨hts, hs⟩ := List.forall_mem_cons.1 hs
    have hvalue := Expression.spells_text_semicolon hv hs
    exact ⟨_, spells_text_returning hts ht hvalue, .ended (.returning ht) rfl .nil⟩
  | expression ht =>
    have hvalue := Expression.spells_text hv hs .nil delimits_nil
    rw [List.append_nil] at hvalue
    exact ⟨_, hvalue, .bare (.expression ht) (by simp) .nil⟩

end Statement

/-! ## Reading the text of a statement -/

/-- A stream of the right tokens parses to the statements that are written with them, wherever its
tokens stand. -/
theorem Program.exists_ofOutcomes_of_unplaced {limit : Nat} (stop : Nat) {ts : List Lexeme}
    {row : List Token} {ss : List Statement}
    (hts : ts.map (·.token.unplaced) = row.map Token.unplaced) (h : WrittenWith ss row)
    (hl : ∀ s ∈ ss, s.value.Legal limit) :
    ∃ ss', Parse.ofOutcomes (outcomes limit stop ts) = ⟨⟨ss'⟩, []⟩ ∧
      ss'.map Statement.unplaced = ss.map Statement.unplaced := by
  let f : Span → Span := fun _ => .point 0
  have hrow : (ts.map (Lexeme.mapSpan f)).map (·.token) = row.map (Token.mapSpan f) := by
    rw [List.map_map]
    exact hts
  have hlegal : ∀ s ∈ ss.map (Statement.mapSpan f), s.value.Legal limit := by
    intro s' hs'
    obtain ⟨s, hs, rfl⟩ := List.mem_map.1 hs'
    rw [Statement.value_mapSpan]
    exact (Expression.legal_mapSpan_iff f).2 (hl s hs)
  have hmoved : f (.point stop) = .point 0 := rfl
  exact exists_ofOutcomes_of_mapSpan f hmoved (by rw [hrow]; exact h.mapSpan f) hlegal

/-- **The parentheses of a text are not needed.**  With every parenthesis deleted, the text of a
statement that has been parsed parses to that one statement, but for the places of its tokens. -/
theorem parse_withoutParens_text (source : String) (settings : Settings) (s : Statement)
    (h : s ∈ (parse source settings).program.statements) :
    ∃ s', parse (withoutParens s.text) settings = ⟨⟨[s']⟩, []⟩ ∧ s'.unplaced = s.unplaced := by
  obtain ⟨o, ho, hos⟩ := List.mem_filterMap.1 (parse_eq_ofOutcomes source settings ▸ h)
  obtain rfl : o = .ok s := by
    cases o with
    | ok s' => rw [Option.some.inj hos]
    | error e => cases hos
  obtain ⟨row, hrow, hw, hl⟩ := Program.exists_writtenWith_of_mem_outcomes ho
  have hspelled : ∀ t ∈ row, t.Spelled := by
    intro t ht
    obtain ⟨u, hu, rfl⟩ := List.mem_map.1 (hrow.subset ht)
    exact Cursor.spelled_of_mem_lexemes hu
  obtain ⟨row', hspells, hw'⟩ := Statement.exists_spells_text hw hl.wellFormed hspelled
  have htokens := Cursor.tokens_of_spells hspells 0
  obtain ⟨ss, hparse, hss⟩ := Program.exists_ofOutcomes_of_unplaced
    (withoutParens s.text).utf8ByteSize htokens hw' (List.forall_mem_singleton.2 hl)
  obtain ⟨s', rfl, hs'⟩ := List.map_eq_singleton_iff.1 hss
  refine ⟨s', ?_, hs'⟩
  rw [parse_eq_ofOutcomes, ← hparse, Cursor.ofString, withoutParens, String.toList_ofList]

/-- The text of the tree of `!a==b*2` is `((!a) == (b * 2))`. -/
theorem parse_withoutParens_text_comparison :
    let bang : Token := .ofText (.operator .bang) "!" 0
    let a : Token := .ofText .name "a" 1
    let equal : Token := .ofText (.operator .equal) "==" 2
    let b : Token := .ofText .name "b" 4
    let star : Token := .ofText (.operator .star) "*" 5
    let two : Token := .ofText .integer "2" 6
    let s : Statement := .expression bang
      (.binary (.unary bang (.name a)) equal (.binary (.name b) star (.integer two 2)))
    s ∈ (parse "!a==b*2" ⟨3⟩).program.statements ∧
      ∃ s', parse "!a == b * 2" ⟨3⟩ = ⟨⟨[s']⟩, []⟩ ∧ s'.unplaced = s.unplaced := by
  intro bang a equal b star two s
  have htokens : (Cursor.ofString "!a==b*2").lexemes.map (·.token) =
      [bang, a, equal, b, star, two] := by decide +kernel
  have hw : Program.WrittenWith [s] ((Cursor.ofString "!a==b*2").lexemes.map (·.token)) := by
    rw [htokens]
    exact .bare (.expression rfl) (by simp) .nil
  have hl : ∀ s' ∈ [s], s'.value.Legal 3 :=
    List.forall_mem_singleton.2 ⟨by decide, by decide, by decide⟩
  have hmem : s ∈ (parse "!a==b*2" ⟨3⟩).program.statements := by
    rw [parse_eq_ofOutcomes, Program.outcomes_of_writtenWith hw hl]
    exact List.mem_singleton_self s
  have htext : withoutParens s.text = "!a == b * 2" := by decide
  have h := parse_withoutParens_text "!a==b*2" ⟨3⟩ s hmem
  rw [htext] at h
  exact ⟨hmem, h⟩

end MonkeyLang
