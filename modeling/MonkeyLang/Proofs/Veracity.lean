import MonkeyLang.Proofs.Coverage

/-!
# What a diagnostic says is true

A diagnostic speaks of the token at its span and of the tokens directly before it.  This file says
that all of it is so (`diagnostics_hold`): the token is of the kind that is named, or has the
numeral that is quoted; where a name or the sign `=` was expected, a `let` stands before the token,
or a `let` and a name; and where an operand is nested too deeply, an operator stands before it.  The words
for a kind of token are those of a table that is written out here (`TokenKind.words`).

The proof follows a failure from the place where it arises up to the row of all tokens.  What it
says of the lexemes before the offending one is said by suffixes: the lexemes from those on are a
suffix of what was read, and so of every stream that this is a suffix of (`Failure.Holds.mono`).
Only the limit on nesting needs to know what stands before the stream: a reader that has no level
left refuses the first lexeme it sees, so it is the operator before its operand that is kept along
(`OperandReader.Candid`).
-/

namespace MonkeyLang

/-- What a failure says is true of the lexemes `row`, among which it was found. -/
def Failure.Holds (limit : Nat) (row : List Lexeme) (x : Failure) : Prop :=
  match x.problem with
  | .expected kind =>
    (∀ t ∈ x.rest.head?, t.kind ≠ kind) ∧
      (kind = .name ∧ (∃ l : Lexeme, l.kind = .keyword .kwLet ∧ l :: x.rest <:+ row) ∨
        kind = .operator .assign ∧
          ∃ l n : Lexeme, l.kind = .keyword .kwLet ∧ n.kind = .name ∧ l :: n :: x.rest <:+ row)
  | .noOperand => ∀ t ∈ x.rest.head?, t.kind.beginsOperand = false
  | .integerTooGreat =>
    ∃ t ∈ x.rest.head?, t.kind = .integer ∧ Numeral.read? t.token.literal.toList = none
  | .tooDeep n =>
    n = limit ∧ (0 < limit → ∃ o : Lexeme, (∃ op, o.kind = .operator op) ∧ o :: x.rest <:+ row)

namespace Failure

variable {limit : Nat} {row row' : List Lexeme} {x : Failure}

/-- It stays true where more lexemes stand in front. -/
theorem Holds.mono (h : x.Holds limit row) (hrow : row <:+ row') : x.Holds limit row' := by
  obtain ⟨problem, rest⟩ := x
  cases problem with
  | expected kind =>
    obtain ⟨hkind, ⟨hname, l, hl, hs⟩ | ⟨hassign, l, n, hl, hn, hs⟩⟩ := h
    · exact ⟨hkind, Or.inl ⟨hname, l, hl, hs.trans hrow⟩⟩
    · exact ⟨hkind, Or.inr ⟨hassign, l, n, hl, hn, hs.trans hrow⟩⟩
  | noOperand => exact h
  | integerTooGreat => exact h
  | tooDeep n =>
    obtain ⟨hn, hbefore⟩ := h
    refine ⟨hn, fun hlimit => ?_⟩
    obtain ⟨o, ho, hs⟩ := hbefore hlimit
    exact ⟨o, ho, hs.trans hrow⟩

end Failure

theorem TokenKind.exists_operator_of_isUnary {kind : TokenKind} (h : kind.isUnary) :
    ∃ op, kind = operator op := by
  cases kind with
  | operator op => exact ⟨op, rfl⟩
  | _ => cases h

theorem TokenKind.exists_operator_of_isBinary {kind : TokenKind} (h : kind.isBinary) :
    ∃ op, kind = operator op := by
  cases kind with
  | operator op => exact ⟨op, rfl⟩
  | _ => cases h

/-! ## Failures of an expression -/

namespace Expression

/-- What the failures of a reader say is true, if an operator stands before what it reads. -/
def OperandReader.Candid (r : OperandReader) (limit : Nat) : Prop :=
  ∀ (o : Lexeme) (p : Precedence) (ts : List Lexeme) (x : Failure), (∃ op, o.kind = .operator op) →
    r.read p ts = .error x → x.Holds limit (o :: ts)

variable {deeper : OperandReader} {limit : Nat} {ts : List Lexeme} {x : Failure}

theorem readPrimary_holds (hd : deeper.Candid limit) (h : readPrimary deeper ts = .error x) :
    x.Holds limit ts := by
  cases ts with
  | nil =>
    cases h
    intro t ht
    cases ht
  | cons t ts =>
    cases hb : t.kind.beginsOperand with
    | false =>
      rw [readPrimary_cons_refused deeper hb] at h
      cases h
      intro u hu
      cases hu
      exact hb
    | true =>
      rcases TokenKind.beginsOperand_iff.1 hb with hk | hk | hu
      · rw [readPrimary_name deeper hk] at h
        cases h
      · simp only [readPrimary, hk] at h
        cases hn : Numeral.read? t.token.literal.toList with
        | some n =>
          rw [hn] at h
          cases h
        | none =>
          rw [hn] at h
          cases h
          exact ⟨t, rfl, hk, hn⟩
      · rw [readPrimary_cons_unary deeper hu] at h
        cases hr : deeper.read .unary ts with
        | ok r =>
          rw [hr] at h
          cases h
        | error y =>
          rw [hr] at h
          cases h
          exact hd t .unary ts x (TokenKind.exists_operator_of_isUnary hu) hr

theorem extend_holds (hd : deeper.Candid limit) {p : Precedence} {left : Expression}
    (h : extend deeper p left ts = .error x) : x.Holds limit ts := by
  fun_induction extend deeper p left ts with
  | case1 => cases h
  | case2 left t ts hc right rest hr ih =>
    obtain ⟨u, us, rfl, hs⟩ := deeper.exists_of_ok hr
    exact (ih h).mono ((hs.trans (List.suffix_cons u us)).trans (List.suffix_cons t _))
  | case3 left t ts hc y hr =>
    cases h
    exact hd t t.kind.precedence ts x (TokenKind.exists_operator_of_isBinary hc.2) hr
  | case4 => cases h

theorem readAbove_holds (hd : deeper.Candid limit) {p : Precedence}
    (h : readAbove deeper p ts = .error x) : x.Holds limit ts := by
  have horderly := readPrimary_orderly deeper ts
  cases hr : readPrimary deeper ts with
  | ok r =>
    obtain ⟨left, rest⟩ := r
    rw [readAbove, hr] at h
    rw [hr] at horderly
    obtain ⟨t, us, rfl, hs⟩ := horderly
    exact (extend_holds hd h).mono (hs.trans (List.suffix_cons t us))
  | error y =>
    rw [readAbove, hr] at h
    cases h
    exact readPrimary_holds hd hr

/-- By induction on the levels that are left: where none is, the operator before the operand stands
before the offending lexeme. -/
theorem reader_candid (limit budget : Nat) : (reader limit budget).Candid limit := by
  induction budget with
  | zero =>
    intro o p ts x ho h
    cases h
    exact ⟨rfl, fun _ => ⟨o, ho, List.suffix_rfl⟩⟩
  | succ budget ih =>
    intro o p ts x ho h
    have h : readAbove (reader limit budget) p ts = .error x := h
    exact (readAbove_holds ih h).mono (List.suffix_cons o ts)

theorem parse_holds (h : parse limit ts = .error x) : x.Holds limit ts := by
  cases limit with
  | zero =>
    cases h
    exact ⟨rfl, fun hlimit => absurd hlimit (Nat.lt_irrefl 0)⟩
  | succ n =>
    have h : readAbove (reader (n + 1) n) .lowest ts = .error x := h
    exact readAbove_holds (reader_candid (n + 1) n) h

end Expression

/-! ## Failures of a statement -/

namespace Statement

variable {limit : Nat} {t : Lexeme} {ts : List Lexeme} {x : Failure}

theorem parse_holds (h : parse limit t ts = .error x) : x.Holds limit (t :: ts) := by
  unfold parse at h
  split at h
  · rename_i hlet
    rcases readBinding_eq_error_iff.1 h with h | ⟨n, us, rfl, hn, h | ⟨a, vs, rfl, ha, h⟩⟩
    · obtain ⟨rfl, hkind⟩ := expect_eq_error_iff.1 h
      exact ⟨hkind, Or.inl ⟨rfl, t, hlet, List.suffix_rfl⟩⟩
    · obtain ⟨rfl, hkind⟩ := expect_eq_error_iff.1 h
      exact ⟨hkind, Or.inr ⟨rfl, t, n, hlet, hn, List.suffix_rfl⟩⟩
    · exact (Expression.parse_holds h).mono ⟨[t, n, a], rfl⟩
  · exact (Expression.parse_holds (readReturning_eq_error_iff.1 h)).mono (List.suffix_cons t ts)
  · exact Expression.parse_holds (readExpression_eq_error_iff.1 h)

end Statement

/-- Each error of a series of attempts is a failure somewhere in the stream, and what it says is
true of the stream. -/
theorem Program.exists_holds_of_error_mem {limit stop : Nat} {ts : List Lexeme} {e : ParseError}
    (h : .error e ∈ outcomes limit stop ts) :
    ∃ x : Failure, x.error stop = e ∧ x.rest <:+ ts ∧ x.Holds limit ts := by
  induction ts using attempts_induction limit with
  | nil => cases (outcomes_nil limit stop ▸ h)
  | ok t ts s rest hp hrest ih =>
    rw [outcomes_cons_of_ok stop hp] at h
    rcases List.mem_cons.1 h with h | h
    · cases h
    · obtain ⟨x, hx, hs, hholds⟩ := ih h
      exact ⟨x, hx, hs.trans hrest, hholds.mono hrest⟩
  | error t ts y hp hrest ih =>
    rw [outcomes_cons_of_error stop hp] at h
    rcases List.mem_cons.1 h with h | h
    · cases h
      exact ⟨y, rfl, Statement.rest_suffix_of_parse_eq_error hp, Statement.parse_holds hp⟩
    · obtain ⟨x, hx, hs, hholds⟩ := ih h
      exact ⟨x, hx, hs.trans hrest, hholds.mono hrest⟩

/-! ## Diagnostics -/

/-- The four forms of a diagnostic. -/
inductive Diagnostic.Form where
  /-- No operand begins with the token. -/
  | operand
  /-- Another kind of token has to stand there. -/
  | kind
  /-- The numeral is that of no integer of the language. -/
  | numeral
  /-- The operand at the token is nested too deeply. -/
  | nesting
deriving DecidableEq, Repr

/-- The words for a kind of token: the symbol as it is written, or a name in capitals. -/
def TokenKind.words : TokenKind → String
  | keyword .kwFn => "FUNCTION"
  | keyword .kwLet => "LET"
  | keyword .kwTrue => "TRUE"
  | keyword .kwFalse => "FALSE"
  | keyword .kwIf => "IF"
  | keyword .kwElse => "ELSE"
  | keyword .kwReturn => "RETURN"
  | operator .assign => "="
  | operator .plus => "+"
  | operator .minus => "-"
  | operator .star => "*"
  | operator .slash => "/"
  | operator .bang => "!"
  | operator .less => "<"
  | operator .greater => ">"
  | operator .equal => "=="
  | operator .notEqual => "!="
  | punctuation .comma => ","
  | punctuation .semicolon => ";"
  | punctuation .leftParen => "("
  | punctuation .rightParen => ")"
  | punctuation .leftBrace => "\x7b"
  | punctuation .rightBrace => "\x7d"
  | name => "IDENT"
  | integer => "INT"
  | illegal => "ILLEGAL"
  | endOfText => "EOF"

/-- Diagnostics speak of each kind of token in these words. -/
theorem TokenKind.display_eq_words (kind : TokenKind) : kind.display = kind.words := by
  cases kind with
  | keyword k => cases k <;> rfl
  | operator o => cases o <;> rfl
  | punctuation p => cases p <;> rfl
  | _ => rfl

/-- A diagnostic at the token `t` of the row `ts` is of a form, and what it says is true. -/
def Diagnostic.Says (limit : Nat) (ts : List Token) (t : Token) (d : Diagnostic) : Form → Prop
  | .operand =>
    d.kind = .malformed ∧
      d.message = "no prefix parse function for " ++ t.kind.words ++ " found" ∧
      (t.kind ≠ .name ∧ t.kind ≠ .integer ∧ t.kind ≠ .operator .minus ∧ t.kind ≠ .operator .bang) ∧
      (d.hint.isSome ↔ t.kind = .illegal ∨ ∃ k, t.kind = .keyword k) ∧
      ∀ hint ∈ d.hint, ∃ advice, hint = "`" ++ t.literal ++ "`" ++ advice
  | .kind =>
    d.kind = .malformed ∧ d.hint = none ∧
      (d.message = "expected next token to be IDENT, got " ++ t.kind.words ++ " instead" ∧
          t.kind ≠ .name ∧ (∃ l : Token, l.kind = .keyword .kwLet ∧ [l, t] <:+: ts) ∨
        d.message = "expected next token to be =, got " ++ t.kind.words ++ " instead" ∧
          t.kind ≠ .operator .assign ∧
          ∃ l n : Token, l.kind = .keyword .kwLet ∧ n.kind = .name ∧ [l, n, t] <:+: ts)
  | .numeral =>
    d.kind = .malformed ∧ d.hint.isSome ∧
      d.message = "could not parse " ++ t.literal ++ " as integer" ∧
      t.kind = .integer ∧ 9223372036854775807 < Numeral.value t.literal.toList
  | .nesting =>
    d.kind = .limitExceeded ∧ d.hint.isSome ∧
      d.message = "expression nesting exceeds the maximum depth of " ++ toString limit ∧
      (0 < limit → ∃ o : Token, (∃ op, o.kind = .operator op) ∧ [o, t] <:+: ts)

namespace Diagnostic

variable {limit : Nat} {ts : List Token} {t : Token} {d : Diagnostic}

/-- The first letters of a message tell its form. -/
def Form.opening : Form → List Char
  | operand => ['n', 'o', ' ', 'p']
  | kind => ['e', 'x', 'p', 'e']
  | numeral => ['c', 'o', 'u', 'l']
  | nesting => ['e', 'x', 'p', 'r']

theorem Form.opening_injective {f g : Form} (h : f.opening = g.opening) : f = g := by
  revert h
  cases f <;> cases g <;> decide

theorem Says.take_message {form : Form} (h : d.Says limit ts t form) :
    d.message.toList.take 4 = form.opening := by
  cases form with
  | operand =>
    obtain ⟨-, hmessage, -⟩ := h
    rw [hmessage]
    simp only [String.toList_append]
    rfl
  | kind =>
    obtain ⟨-, -, ⟨hmessage, -⟩ | ⟨hmessage, -⟩⟩ := h
    · rw [hmessage]
      simp only [String.toList_append]
      rfl
    · rw [hmessage]
      simp only [String.toList_append]
      rfl
  | numeral =>
    obtain ⟨-, -, hmessage, -⟩ := h
    rw [hmessage]
    simp only [String.toList_append]
    rfl
  | nesting =>
    obtain ⟨-, -, hmessage, -⟩ := h
    rw [hmessage]
    simp only [String.toList_append]
    rfl

/-- A diagnostic is of one form only. -/
theorem Says.unique {f g : Form} (hf : d.Says limit ts t f) (hg : d.Says limit ts t g) : f = g :=
  Form.opening_injective (hf.take_message.symm.trans hg.take_message)

/-- The diagnostics for the limit on nesting are those with the message for it. -/
theorem Says.kind_eq_limitExceeded_iff {form : Form} (h : d.Says limit ts t form) :
    d.kind = .limitExceeded ↔
      d.message = "expression nesting exceeds the maximum depth of " ++ toString limit := by
  have hform : form = .nesting →
      d.kind = .limitExceeded ∧
        d.message = "expression nesting exceeds the maximum depth of " ++ toString limit := by
    rintro rfl
    exact ⟨h.1, h.2.2.1⟩
  constructor
  · intro hkind
    cases form with
    | nesting => exact (hform rfl).2
    | _ => cases hkind.symm.trans h.1
  · intro hmessage
    have htake := h.take_message
    rw [hmessage, String.toList_append] at htake
    exact (hform (Form.opening_injective htake.symm)).1

end Diagnostic

namespace Failure

variable {row : List Lexeme} {x : Failure} (stop : Nat)

/-- The lexemes directly before the offending one, in the row of tokens. -/
theorem infix_of_suffix (ls : List Lexeme) (h : ls ++ x.rest <:+ row) :
    ls.map (·.token) ++ [(x.error stop).token] <:+:
      row.map (·.token) ++ [.endOfText stop] := by
  obtain ⟨pre, rfl⟩ := h
  obtain ⟨post, hpost⟩ := List.head?_eq_some_iff.1 (x.head?_error stop)
  refine ⟨pre.map (·.token), post, ?_⟩
  simp only [List.map_append, List.append_assoc, hpost, List.singleton_append]

/-- What is true of the kind of the offending lexeme, if there is one, and of the end of a text, is
true of the kind of the token that is blamed. -/
theorem kind_error {p : TokenKind → Prop} (hrest : ∀ t ∈ x.rest.head?, p t.kind)
    (hend : p .endOfText) : p (x.error stop).token.kind := by
  obtain ⟨problem, rest⟩ := x
  cases rest with
  | nil => exact hend
  | cons t rest => exact hrest t rfl

end Failure

/-- A token that is refused as an operand has a hint if it is illegal or reserved, and the hint
quotes it. -/
theorem ParseError.hint_noOperand (t : Token) :
    ((mk .noOperand t).hint.isSome ↔ t.kind = .illegal ∨ ∃ k, t.kind = .keyword k) ∧
      ∀ hint ∈ (mk .noOperand t).hint, ∃ advice, hint = "`" ++ t.literal ++ "`" ++ advice := by
  obtain ⟨kind, literal, span⟩ := t
  have hquote (text : String) : "`" ++ literal ++ ("`" ++ text) = "`" ++ literal ++ "`" ++ text :=
    String.append_assoc.symm
  cases kind with
  | illegal =>
    refine ⟨by simp [hint], ?_⟩
    rintro _ ⟨⟩
    exact ⟨_, hquote " is not a valid character here"⟩
  | keyword k =>
    refine ⟨by simp [hint], ?_⟩
    rintro _ ⟨⟩
    exact ⟨_, hquote " is reserved but not supported in expressions yet"⟩
  | _ => simp [hint]

/-- A failure whose words are true of the lexemes gives a diagnostic whose words are true of the
tokens. -/
theorem Failure.Holds.says {limit : Nat} {row : List Lexeme} {x : Failure} (h : x.Holds limit row)
    (stop : Nat) : ∃ form, (x.error stop).diagnostic.Says limit
      (row.map (·.token) ++ [.endOfText stop]) (x.error stop).token form := by
  obtain ⟨problem, rest⟩ := x
  cases problem with
  | expected kind =>
    obtain ⟨hkind, hbefore⟩ := h
    have hend : TokenKind.endOfText ≠ kind := by
      rcases hbefore with ⟨rfl, -⟩ | ⟨rfl, -⟩ <;> decide
    have hne := kind_error stop (p := fun k => k ≠ kind) hkind hend
    have hwords := (Failure.error ⟨.expected kind, rest⟩ stop).token.kind.display_eq_words
    refine ⟨.kind, rfl, rfl, ?_⟩
    rcases hbefore with ⟨rfl, l, hl, hs⟩ | ⟨rfl, l, n, hl, hn, hs⟩
    · refine Or.inl ⟨?_, hne, l.token, hl, infix_of_suffix stop [l] hs⟩
      rw [← hwords]
      rfl
    · refine Or.inr ⟨?_, hne, l.token, n.token, hl, hn, infix_of_suffix stop [l, n] hs⟩
      rw [← hwords]
      rfl
  | noOperand =>
    have hkind := kind_error stop (p := fun k => k.beginsOperand = false) h rfl
    have hne {kind : TokenKind} (hk : kind.beginsOperand) :
        (Failure.error ⟨.noOperand, rest⟩ stop).token.kind ≠ kind := by
      rintro rfl
      exact Bool.false_ne_true (hkind.symm.trans hk)
    refine ⟨.operand, rfl, ?_, ⟨hne rfl, hne rfl, hne rfl, hne rfl⟩,
      ParseError.hint_noOperand (Failure.error ⟨.noOperand, rest⟩ stop).token⟩
    rw [← TokenKind.display_eq_words]
    rfl
  | integerTooGreat =>
    obtain ⟨t, ht, hk, hn⟩ := h
    cases rest with
    | nil => cases ht
    | cons u us =>
      cases ht
      have hvalue : Numeral.greatest < Numeral.value t.token.literal.toList :=
        Numeral.read?_eq_none_iff.1 hn
      exact ⟨.numeral, rfl, rfl, rfl, hk, Int.ofNat_lt.1 hvalue⟩
  | tooDeep n =>
    obtain ⟨rfl, hbefore⟩ := h
    refine ⟨.nesting, rfl, rfl, rfl, fun hlimit => ?_⟩
    obtain ⟨o, ho, hs⟩ := hbefore hlimit
    exact ⟨o.token, ho, infix_of_suffix stop [o] hs⟩

/-- **What a diagnostic says is true.**  Each diagnostic is at a token of the text and of exactly
one of the four forms, and what it says of that token and of those before it is so.  Of the four,
the limit on nesting has a kind of its own. -/
theorem diagnostics_hold (source : String) (settings : Settings) (d : Diagnostic)
    (h : d ∈ (parse source settings).diagnostics) :
    ∃ t ∈ tokens source, d.span = t.span ∧
      (∃! form, d.Says settings.maxDepth (tokens source) t form) ∧
      (d.kind = .limitExceeded ↔ d.message =
        "expression nesting exceeds the maximum depth of " ++ toString settings.maxDepth) := by
  obtain ⟨e, he, rfl⟩ := List.mem_map.1 h
  rw [parse_eq_ofOutcomes] at he
  obtain ⟨x, rfl, hs, hholds⟩ := Program.exists_holds_of_error_mem (Parse.mem_filterMap_error?_iff.1 he)
  obtain ⟨form, hsays⟩ := hholds.says source.utf8ByteSize
  rw [← tokens_eq_append] at hsays
  refine ⟨(x.error source.utf8ByteSize).token, ?_, rfl, ⟨form, hsays, fun g hg => hg.unique hsays⟩,
    hsays.kind_eq_limitExceeded_iff⟩
  rw [tokens_eq_append]
  exact (Failure.infix_of_suffix source.utf8ByteSize [] hs).subset List.mem_cons_self

/-- With two levels the operand `b` is nested too deeply; the sign `-` stands before it. -/
theorem diagnostics_hold_nesting :
    let source := "let x 5\nlet y = 1 + -b"
    let d : Diagnostic := ⟨"expression nesting exceeds the maximum depth of 2", ⟨21, 22⟩,
      .limitExceeded, some "split the expression with `let` bindings"⟩
    d ∈ (parse source ⟨2⟩).diagnostics ∧
    ∃ t ∈ tokens source, d.span = t.span ∧
      (∃! form, d.Says 2 (tokens source) t form) ∧
      (d.kind = .limitExceeded ↔ d.message =
        "expression nesting exceeds the maximum depth of " ++ toString 2) := by
  intro source d
  have hd : d ∈ (parse source ⟨2⟩).diagnostics := by decide +kernel
  exact ⟨hd, diagnostics_hold source ⟨2⟩ d hd⟩

end MonkeyLang
