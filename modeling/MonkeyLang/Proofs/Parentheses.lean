import MonkeyLang.Proofs.Lexicon
import MonkeyLang.Proofs.Rendering

/-!
# The text of a program adds only grouping

Where a source is accepted, the text of its program says what the source says, letter for letter: without
the marks that group it, it is the source without its layout, and each operator but the sign of a binding
has put one pair of parentheses into it (`text_only_groups`).

Both sides are measured against the row of tokens.  What is left of a source without its layout is the
`ink` of its tokens, be it accepted or not (`Cursor.erase_layout`).  What is left of the text of a tree is
the ink of the tokens of the tree, since the tokens of a tree are `Solid`: none of their characters is a
mark (`Expression.erase_text`).  The sign of a binding is in no tree, but its text puts it back.
-/

namespace MonkeyLang

open Character

/-- The characters that are not among the marks. -/
def erase (marks cs : List Char) : List Char := cs.filter fun c => !marks.contains c

/-- The marks that a text has and its source may lack: those that group, end or space what is written. -/
def groupingMarks : List Char := ['(', ')', ';', ' ']

/-- The marks that a source has and a text may lack: blanks, and the semicolons behind statements. -/
def layoutMarks : List Char := [';', ' ', '\t', '\n', '\r']

/-- Whether a character is one of the marks of either kind. -/
def Character.isMark (c : Char) : Bool := groupingMarks.contains c || layoutMarks.contains c

/-- Whether tokens of this kind stand in trees, or would as the sign of a binding. -/
def TokenKind.isSolid : TokenKind → Bool
  | keyword _ | operator _ | name | integer => true
  | _ => false

/-- Whether a kind is that of an operator. -/
def TokenKind.isOperator : TokenKind → Bool
  | operator _ => true
  | _ => false

/-- A token that may stand in a tree, spelled as its kind has it. -/
structure Token.Solid (t : Token) : Prop where
  spelled : t.Spelled
  isSolid : t.kind.isSolid

/-- The characters of a token that are in both a source and its text. -/
def Token.ink (t : Token) : List Char := if t.kind = .semicolon then [] else t.literal.toList

/-- Whether a statement binds a name. -/
def Statement.isBinding : Statement → Bool
  | binding _ _ _ => true
  | _ => false

theorem TokenKind.isOperator_of_fixity {kind : TokenKind} (h : kind.isUnary ∨ kind.isBinary) :
    kind.isOperator := by
  cases kind with
  | operator o => rfl
  | _ => simp [isUnary, isBinary] at h

theorem TokenKind.isSolid_of_isOperator {kind : TokenKind} (h : kind.isOperator) :
    kind.isSolid := by
  cases kind with
  | operator o => rfl
  | _ => cases h

theorem erase_append (marks as bs : List Char) :
    erase marks (as ++ bs) = erase marks as ++ erase marks bs := List.filter_append as bs

theorem erase_eq_self {marks cs : List Char} (h : ∀ c ∈ cs, marks.contains c = false) :
    erase marks cs = cs := by
  refine List.filter_eq_self.2 fun c hc => ?_
  rw [h c hc]
  rfl

theorem erase_eq_nil {marks cs : List Char} (h : ∀ c ∈ cs, marks.contains c) :
    erase marks cs = [] := by
  refine List.filter_eq_nil_iff.2 fun c hc => ?_
  rw [h c hc]
  exact Bool.false_ne_true

/-! ## The characters of a token -/

theorem Character.isParen_iff {c : Char} : isParen c ↔ c = '(' ∨ c = ')' := by
  simp [isParen]

theorem Character.isMark_iff {c : Char} :
    isMark c ↔ c = '(' ∨ c = ')' ∨ c = ';' ∨ isBlank c := by
  simp only [isMark, groupingMarks, layoutMarks, isBlank, List.contains_cons, List.contains_nil,
    Bool.or_eq_true, beq_iff_eq, Bool.or_false]
  grind

theorem Character.isMark_eq_false {c : Char} (h : isLetter c ∨ isDigit c) : isMark c = false := by
  refine Bool.eq_false_iff.2 fun hm => ?_
  have hno : isLetter c = false ∧ isDigit c = false := by
    rcases isMark_iff.1 hm with rfl | rfl | rfl | hb
    · decide
    · decide
    · decide
    · exact ⟨isLetter_of_isBlank hb, isDigit_of_isBlank hb⟩
  rcases h with h | h
  · exact Bool.false_ne_true (hno.1.symm.trans h)
  · exact Bool.false_ne_true (hno.2.symm.trans h)

namespace Token

variable {t : Token}

theorem Spelled.admits (h : t.Spelled) : t.kind.Admits t.literal := (h.kind_eq_iff t.kind).1 rfl

/-- No character of a solid token is a mark. -/
theorem Solid.isMark_eq_false (h : t.Solid) : ∀ c ∈ t.literal.toList, isMark c = false := by
  obtain ⟨kind, literal, span⟩ := t
  have hadmits : kind.Admits literal := h.spelled.admits
  have hsolid : kind.isSolid := h.isSolid
  have hnone (h : literal.toList.any isMark = false) : ∀ c ∈ literal.toList, isMark c = false :=
    fun c hc => Bool.eq_false_iff.2 (List.any_eq_false.1 h c hc)
  show ∀ c ∈ literal.toList, isMark c = false
  cases kind with
  | keyword k =>
    refine hnone ?_
    rw [show literal = k.spelling from hadmits]
    cases k <;> decide
  | operator o =>
    refine hnone ?_
    rw [show literal = o.spelling from hadmits]
    cases o <;> decide
  | name => exact fun c hc => Character.isMark_eq_false (Or.inl (hadmits.2.1 c hc))
  | integer => exact fun c hc => Character.isMark_eq_false (Or.inr (hadmits.2 c hc))
  | punctuation | illegal | endOfText => cases hsolid

theorem Solid.ink_eq (h : t.Solid) : t.ink = t.literal.toList := by
  refine if_neg fun hk => ?_
  have hsolid := h.isSolid
  rw [hk] at hsolid
  cases hsolid

theorem Solid.erase_grouping (h : t.Solid) : erase groupingMarks t.literal.toList = t.ink := by
  rw [h.ink_eq]
  exact erase_eq_self fun c hc => (Bool.or_eq_false_iff.1 (h.isMark_eq_false c hc)).1

theorem Solid.count_paren (h : t.Solid) {x : Char} (hx : isParen x) :
    t.literal.toList.count x = 0 := by
  refine List.count_eq_zero.2 fun hmem => ?_
  have hmark : isMark x := by
    rcases isParen_iff.1 hx with rfl | rfl <;> decide
  exact Bool.false_ne_true ((h.isMark_eq_false x hmem).symm.trans hmark)

/-- A token has no layout in it, unless it is a semicolon. -/
theorem Spelled.erase_layout (h : t.Spelled) : erase layoutMarks t.literal.toList = t.ink := by
  by_cases hsolid : t.kind.isSolid
  · have ht : t.Solid := ⟨h, hsolid⟩
    rw [ht.ink_eq]
    exact erase_eq_self fun c hc => (Bool.or_eq_false_iff.1 (ht.isMark_eq_false c hc)).2
  · have hadmits := h.admits
    obtain ⟨kind, literal, span⟩ := t
    cases kind with
    | punctuation p =>
      rw [show literal = p.spelling from hadmits]
      show erase layoutMarks p.spelling.toList =
        if TokenKind.punctuation p = .semicolon then [] else p.spelling.toList
      cases p <;> decide
    | illegal =>
      obtain ⟨c, hliteral : literal = _, hblank, -, -, -, hnone⟩ := hadmits
      have hc : c ≠ ';' := by
        rintro rfl
        have hnone : Punctuation.ofSpelling? literal = none := hnone
        rw [hliteral] at hnone
        exact absurd hnone (by decide)
      show erase layoutMarks literal.toList = literal.toList
      rw [hliteral, String.toList_singleton]
      refine erase_eq_self fun d hd => ?_
      rw [List.mem_singleton.1 hd]
      simpa [layoutMarks, isBlank, hc, and_assoc] using hblank
    | endOfText =>
      rw [show literal = "" from hadmits]
      rfl
    | keyword | operator | name | integer => exact absurd rfl hsolid

end Token

/-! ## A source without its layout -/

/-- What is left of a text without its layout is the ink of its tokens. -/
theorem Cursor.erase_layout (c : Cursor) :
    erase layoutMarks c.rest = (c.lexemes.map (·.token)).flatMap Token.ink := by
  have hblanks {w : List Char} (hw : ∀ x ∈ w, isBlank x) : erase layoutMarks w = [] := by
    refine erase_eq_nil fun x hx => ?_
    rcases isBlank_iff.1 (hw x hx) with rfl | rfl | rfl | rfl <;> decide
  fun_induction lexemes c with
  | case1 c hc => exact hblanks (List.dropWhile_eq_nil_iff.1 (next?_eq_none_iff.1 hc))
  | case2 c t c' hc ih =>
    obtain ⟨w, hw, hrest, -⟩ := exists_gap_of_next? hc
    rw [hrest, erase_append, erase_append, hblanks hw, (spelled_of_next? hc).erase_layout, ih]
    rfl

/-! ## A text without its grouping -/

namespace Expression

/-- The tokens of a tree are solid if each is spelled as its kind has it. -/
theorem WellFormed.solid {e : Expression} (h : e.WellFormed) (hs : ∀ t ∈ e.tokens, t.Spelled) :
    ∀ t ∈ e.tokens, t.Solid := by
  have hoperator {kind : TokenKind} (hk : kind.isUnary ∨ kind.isBinary) : kind.isSolid :=
    TokenKind.isSolid_of_isOperator (TokenKind.isOperator_of_fixity hk)
  induction e with
  | name token =>
    refine fun t ht => ⟨hs t ht, ?_⟩
    rw [List.mem_singleton.1 ht, show token.kind = .name from h]
    rfl
  | integer token value =>
    refine fun t ht => ⟨hs t ht, ?_⟩
    rw [List.mem_singleton.1 ht, h.1]
    rfl
  | unary operator operand ih =>
    obtain ⟨ho, hs⟩ := List.forall_mem_cons.1 hs
    exact List.forall_mem_cons.2 ⟨⟨ho, hoperator (Or.inl h.1)⟩, ih h.2 hs⟩
  | binary left operator right ihl ihr =>
    obtain ⟨hl, hs⟩ := List.forall_mem_append.1 hs
    obtain ⟨ho, hr⟩ := List.forall_mem_cons.1 hs
    exact List.forall_mem_append.2 ⟨ihl h.2.1 hl,
      List.forall_mem_cons.2 ⟨⟨ho, hoperator (Or.inr h.1)⟩, ihr h.2.2 hr⟩⟩

/-- Without its grouping, the text of a tree is the ink of its tokens. -/
theorem erase_text {e : Expression} (h : ∀ t ∈ e.tokens, t.Solid) :
    erase groupingMarks e.text.toList = e.tokens.flatMap Token.ink := by
  have hopen : erase groupingMarks "(".toList = [] := by decide
  have hclose : erase groupingMarks ")".toList = [] := by decide
  have hspace : erase groupingMarks " ".toList = [] := by decide
  induction e with
  | name token | integer token value =>
    rw [tokens, List.flatMap_singleton]
    exact (h token List.mem_cons_self).erase_grouping
  | unary operator operand ih =>
    obtain ⟨ho, hs⟩ := List.forall_mem_cons.1 h
    simp only [text, tokens, String.toList_append, erase_append, hopen, hclose, ho.erase_grouping,
      ih hs, List.nil_append, List.append_nil, List.flatMap_cons]
  | binary left operator right ihl ihr =>
    obtain ⟨hl, hs⟩ := List.forall_mem_append.1 h
    obtain ⟨ho, hr⟩ := List.forall_mem_cons.1 hs
    simp only [text, tokens, String.toList_append, erase_append, hopen, hclose, hspace,
      ho.erase_grouping, ihl hl, ihr hr, List.nil_append, List.append_nil, List.flatMap_append,
      List.flatMap_cons, List.append_assoc]

/-- Each operator of a tree has put one parenthesis of either side into its text. -/
theorem count_text {e : Expression} (he : e.WellFormed) (h : ∀ t ∈ e.tokens, t.Solid) {x : Char}
    (hx : isParen x) : e.text.toList.count x = e.tokens.countP (·.kind.isOperator) := by
  have hpair : "(".toList.count x + ")".toList.count x = 1 := by
    rcases isParen_iff.1 hx with rfl | rfl <;> decide
  have hspace : " ".toList.count x = 0 := by
    rcases isParen_iff.1 hx with rfl | rfl <;> decide
  induction e with
  | name token =>
    rw [text, tokens, (h token List.mem_cons_self).count_paren hx, List.countP_singleton,
      show token.kind = .name from he]
    rfl
  | integer token value =>
    rw [text, tokens, (h token List.mem_cons_self).count_paren hx, List.countP_singleton, he.1]
    rfl
  | unary operator operand ih =>
    obtain ⟨ho, hs⟩ := List.forall_mem_cons.1 h
    have hop := TokenKind.isOperator_of_fixity (Or.inl he.1)
    simp only [text, tokens, String.toList_append, List.count_append, ho.count_paren hx,
      ih he.2 hs, List.countP_cons, hop, if_true]
    omega
  | binary left operator right ihl ihr =>
    obtain ⟨hl, hs⟩ := List.forall_mem_append.1 h
    obtain ⟨ho, hr⟩ := List.forall_mem_cons.1 hs
    have hop := TokenKind.isOperator_of_fixity (Or.inr he.1)
    simp only [text, tokens, String.toList_append, List.count_append, ho.count_paren hx, hspace,
      ihl he.2.1 hl, ihr he.2.2 hr, List.countP_append, List.countP_cons, hop, if_true]
    omega

end Expression

/-! ## Statements and programs

The text of a statement has the ink of the row that the statement is written with, the sign of a binding
among it, and a parenthesis of either side for each operator of the row but that sign. -/

namespace Statement

/-- The tokens of the row of a statement are solid if each is spelled as its kind has it. -/
theorem WrittenWith.solid {s : Statement} {row : List Token} (h : s.WrittenWith row)
    (hv : s.value.WellFormed) (hs : ∀ t ∈ row, t.Spelled) : ∀ t ∈ row, t.Solid := by
  cases h with
  | binding htk hnk hak =>
    simp only [List.forall_mem_cons] at hs ⊢
    obtain ⟨ht, hn, ha, hvalue⟩ := hs
    exact ⟨⟨ht, by rw [htk]; rfl⟩, ⟨hn, by rw [hnk]; rfl⟩, ⟨ha, by rw [hak]; rfl⟩,
      hv.solid hvalue⟩
  | returning htk =>
    obtain ⟨ht, hvalue⟩ := List.forall_mem_cons.1 hs
    exact List.forall_mem_cons.2 ⟨⟨ht, by rw [htk]; rfl⟩, hv.solid hvalue⟩
  | expression => exact hv.solid hs

theorem erase_text {s : Statement} {row : List Token} (h : s.WrittenWith row)
    (hs : ∀ t ∈ row, t.Solid) : erase groupingMarks s.text.toList = row.flatMap Token.ink := by
  have hspace : erase groupingMarks " ".toList = [] := by decide
  have hsign : erase groupingMarks " = ".toList = "=".toList := by decide
  have hmark : erase groupingMarks ";".toList = [] := by decide
  cases h with
  | @binding token name sign value _ _ ha =>
    simp only [List.forall_mem_cons] at hs
    obtain ⟨ht, hn, hsolid, hvalue⟩ := hs
    have hliteral : sign.literal = "=" := by
      have hadmits := hsolid.spelled.admits
      rwa [ha] at hadmits
    simp only [text, String.toList_append, erase_append, hspace, hsign, hmark, ht.erase_grouping,
      hn.erase_grouping, Expression.erase_text hvalue, List.flatMap_cons, hsolid.ink_eq, hliteral,
      List.nil_append, List.append_nil, List.append_assoc]
  | @returning token value =>
    obtain ⟨ht, hvalue⟩ := List.forall_mem_cons.1 hs
    simp only [text, String.toList_append, erase_append, hspace, hmark, ht.erase_grouping,
      Expression.erase_text hvalue, List.flatMap_cons, List.append_nil]
  | expression => exact Expression.erase_text hs

theorem count_text {s : Statement} {row : List Token} (h : s.WrittenWith row)
    (hv : s.value.WellFormed) (hs : ∀ t ∈ row, t.Solid) {x : Char} (hx : isParen x) :
    s.text.toList.count x + (if s.isBinding then 1 else 0) = row.countP (·.kind.isOperator) := by
  have hspace : " ".toList.count x = 0 ∧ " = ".toList.count x = 0 ∧ ";".toList.count x = 0 := by
    rcases isParen_iff.1 hx with rfl | rfl <;> decide
  obtain ⟨hblank, hsign, hmark⟩ := hspace
  cases h with
  | @binding token name sign value htk hnk hak =>
    simp only [List.forall_mem_cons] at hs
    obtain ⟨ht, hn, -, hvalue⟩ := hs
    have hcount := value.count_text hv hvalue hx
    have ht' : token.kind.isOperator = false := by rw [htk]; rfl
    have hn' : name.kind.isOperator = false := by rw [hnk]; rfl
    have ha' : sign.kind.isOperator = true := by rw [hak]; rfl
    simp only [text, String.toList_append, List.count_append, hblank, hsign, hmark,
      ht.count_paren hx, hn.count_paren hx, hcount, List.countP_cons, ht', hn', ha', isBinding,
      if_true, Bool.false_eq_true, if_false]
    omega
  | @returning token value htk =>
    obtain ⟨ht, hvalue⟩ := List.forall_mem_cons.1 hs
    have hcount := value.count_text hv hvalue hx
    have ht' : token.kind.isOperator = false := by rw [htk]; rfl
    simp only [text, String.toList_append, List.count_append, hblank, hmark, ht.count_paren hx,
      hcount, List.countP_cons, ht', isBinding, Bool.false_eq_true, if_false]
    omega
  | expression => exact Expression.count_text hv hs hx

end Statement

namespace Program

variable {limit : Nat} {ss : List Statement} {ts : List Token}

/-- A text is that of its first statement and then that of the others. -/
theorem toList_text_cons (s : Statement) (ss : List Statement) :
    (text ⟨s :: ss⟩).toList = s.text.toList ++ (text ⟨ss⟩).toList := by
  rw [text, List.map_cons, String.join_cons, String.toList_append]
  rfl

theorem erase_text (h : WrittenWith ss ts) (hl : ∀ s ∈ ss, s.value.Legal limit)
    (hs : ∀ t ∈ ts, t.Spelled) :
    erase groupingMarks (text ⟨ss⟩).toList = ts.flatMap Token.ink := by
  induction h with
  | nil => rfl
  | bare hrow _ _ ih =>
    obtain ⟨hv, hl⟩ := List.forall_mem_cons.1 hl
    obtain ⟨hts, hus⟩ := List.forall_mem_append.1 hs
    rw [toList_text_cons, erase_append, ih hl hus, List.flatMap_append,
      Statement.erase_text hrow (hrow.solid hv.wellFormed hts)]
  | @ended s ss row rest mark hrow hm _ ih =>
    obtain ⟨hv, hl⟩ := List.forall_mem_cons.1 hl
    obtain ⟨hts, hus⟩ := List.forall_mem_append.1 hs
    obtain ⟨-, hus⟩ := List.forall_mem_cons.1 hus
    have hink : mark.ink = [] := if_pos hm
    rw [toList_text_cons, erase_append, ih hl hus, List.flatMap_append, List.flatMap_cons, hink,
      Statement.erase_text hrow (hrow.solid hv.wellFormed hts), List.nil_append]

theorem count_text (h : WrittenWith ss ts) (hl : ∀ s ∈ ss, s.value.Legal limit)
    (hs : ∀ t ∈ ts, t.Spelled) {x : Char} (hx : isParen x) :
    (text ⟨ss⟩).toList.count x + ss.countP Statement.isBinding =
      ts.countP (·.kind.isOperator) := by
  have hfirst {s : Statement} {row : List Token} (hrow : s.WrittenWith row)
      (hv : s.value.Legal limit) (hts : ∀ t ∈ row, t.Spelled) :=
    Statement.count_text hrow hv.wellFormed (hrow.solid hv.wellFormed hts) hx
  induction h with
  | nil => rfl
  | @bare s ss row rest hrow _ _ ih =>
    obtain ⟨hv, hl⟩ := List.forall_mem_cons.1 hl
    obtain ⟨hts, hus⟩ := List.forall_mem_append.1 hs
    have hrest := ih hl hus
    have hone := hfirst hrow hv hts
    rw [toList_text_cons, List.count_append, List.countP_append, List.countP_cons]
    omega
  | @ended s ss row rest mark hrow hm _ ih =>
    obtain ⟨hv, hl⟩ := List.forall_mem_cons.1 hl
    obtain ⟨hts, hus⟩ := List.forall_mem_append.1 hs
    obtain ⟨-, hus⟩ := List.forall_mem_cons.1 hus
    have hrest := ih hl hus
    have hone := hfirst hrow hv hts
    have hmark : mark.kind.isOperator = false := by rw [hm]; rfl
    rw [toList_text_cons, List.count_append, List.countP_append, List.countP_cons,
      List.countP_cons_of_neg (by simp [hmark])]
    omega

end Program

/-- **A text adds only grouping.**  Where a source is accepted, the text of its program without its
parentheses, semicolons and spaces is the source without its semicolons and blanks.  The text has as many
parentheses of one side as of the other, one for each operator of the source that is not the sign of a
binding. -/
theorem text_only_groups (source : String) (settings : Settings)
    (h : (parse source settings).errors = []) :
    erase ['(', ')', ';', ' '] (parse source settings).program.text.toList =
        erase [';', ' ', '\t', '\n', '\r'] source.toList ∧
      (parse source settings).program.text.toList.count '(' =
        (parse source settings).program.text.toList.count ')' ∧
      (parse source settings).program.text.toList.count '(' +
          (parse source settings).program.statements.countP Statement.isBinding =
        (tokens source).countP (·.kind.isOperator) := by
  have hp : parse source settings = ⟨(parse source settings).program, []⟩ := by rw [← h]
  generalize (parse source settings).program = p at hp ⊢
  obtain ⟨ss⟩ := p
  rw [parse_eq_ofOutcomes, Parse.ofOutcomes_eq_iff, Program.outcomes_eq_map_ok_iff] at hp
  obtain ⟨hrow, hl⟩ : Program.WrittenWith ss _ ∧ _ := hp
  have hspelled : ∀ t ∈ (Cursor.ofString source).lexemes.map (·.token), t.Spelled := by
    intro t ht
    obtain ⟨u, hu, rfl⟩ := List.mem_map.1 ht
    exact Cursor.spelled_of_mem_lexemes hu
  have hcount {x : Char} (hx : isParen x) := Program.count_text hrow hl hspelled hx
  have hopen := hcount (x := '(') (by decide)
  have hclose := hcount (x := ')') (by decide)
  have hend : (tokens source).countP (·.kind.isOperator) =
      ((Cursor.ofString source).lexemes.map (·.token)).countP (·.kind.isOperator) := by
    rw [tokens_eq_append, List.countP_append]
    rfl
  refine ⟨?_, ?_, ?_⟩
  · exact (Program.erase_text hrow hl hspelled).trans (Cursor.ofString source).erase_layout.symm
  · omega
  · rw [hend]
    exact hopen

/-- Six operators, of which one is the sign of the binding, and five pairs of parentheses. -/
theorem text_only_groups_binding :
    let source := "let y =\t!a==7*-b;\ny - 1"
    (parse source {}).errors = [] ∧
      (parse source {}).program.text = "let y = ((!a) == (7 * (-b)));(y - 1)" ∧
      erase ['(', ')', ';', ' '] (parse source {}).program.text.toList =
        erase [';', ' ', '\t', '\n', '\r'] source.toList ∧
      (parse source {}).program.text.toList.count '(' =
        (parse source {}).program.text.toList.count ')' ∧
      (parse source {}).program.text.toList.count '(' +
          (parse source {}).program.statements.countP Statement.isBinding =
        (tokens source).countP (·.kind.isOperator) := by
  intro source
  have herrors : (parse source {}).errors = [] := by decide +kernel
  have htext : (parse source {}).program.text = "let y = ((!a) == (7 * (-b)));(y - 1)" := by
    decide +kernel
  exact ⟨herrors, htext, text_only_groups source {} herrors⟩

end MonkeyLang
