import MonkeyLang.Text.Character
import MonkeyLang.Token

/-!
# The longest token at the head of a text

A text that starts with no blank starts with a token, and its first character tells what kind of token
that can be (`Onset.ofChar`).  The token reaches as far as it can: a word takes every letter that
follows, a numeral every digit, and `=` and `!` take a second sign `=`.  Every other symbol is one
character, and so is an illegal token: a character that begins no token of the language.

The dispatch compares characters; it does not look at the tables of the vocabulary.

The main statement is `Munch.literal_append_rest`: nothing is added and nothing is lost, so the
token's text and what follows it are the text that was cut.
-/

namespace MonkeyLang

open Character

/-- What a character tells of the token that begins with it. -/
inductive Onset where
  | word
  | numeral
  /-- The operator `simple`, or `compound` if the sign `=` is next. -/
  | pair (simple compound : Operator)
  /-- A token of one character. -/
  | single (kind : TokenKind)
deriving DecidableEq, Repr

/-- The beginning that a character makes. -/
def Onset.ofChar (c : Char) : Onset :=
  match c with
  | '=' => .pair .assign .equal
  | '!' => .pair .bang .notEqual
  | '+' => .single (.operator .plus)
  | '-' => .single (.operator .minus)
  | '*' => .single (.operator .star)
  | '/' => .single (.operator .slash)
  | '<' => .single (.operator .less)
  | '>' => .single (.operator .greater)
  | ',' => .single (.punctuation .comma)
  | ';' => .single (.punctuation .semicolon)
  | '(' => .single (.punctuation .leftParen)
  | ')' => .single (.punctuation .rightParen)
  | '\x7b' => .single (.punctuation .leftBrace)
  | '\x7d' => .single (.punctuation .rightBrace)
  | c => if isLetter c then .word else if isDigit c then .numeral else .single .illegal

/-- A text cut after its first token: the token's kind, its characters, and the text after it. -/
structure Munch where
  kind : TokenKind
  literal : List Char
  rest : List Char
deriving DecidableEq, Repr

namespace Munch

/-- The word that begins with the letter `c`. -/
def word (c : Char) (cs : List Char) : Munch :=
  ⟨.ofWord (String.ofList (c :: cs.takeWhile isLetter)), c :: cs.takeWhile isLetter,
    cs.dropWhile isLetter⟩

/-- The numeral that begins with the digit `c`. -/
def numeral (c : Char) (cs : List Char) : Munch :=
  ⟨.integer, c :: cs.takeWhile isDigit, cs.dropWhile isDigit⟩

/-- The operator `compound` if the sign `=` is next, otherwise `simple`. -/
def pair (simple compound : Operator) (c : Char) : List Char → Munch
  | '=' :: ds => ⟨.operator compound, [c, '='], ds⟩
  | ds => ⟨.operator simple, [c], ds⟩

/-- The longest token at the head of the text `c :: cs`, where `c` is no blank. -/
def ofCons (c : Char) (cs : List Char) : Munch :=
  match Onset.ofChar c with
  | .word => word c cs
  | .numeral => numeral c cs
  | .pair simple compound => pair simple compound c cs
  | .single kind => ⟨kind, [c], cs⟩

section Onset

variable {c : Char} (cs : List Char)

theorem ofCons_of_word (h : Onset.ofChar c = .word) : ofCons c cs = word c cs := by
  rw [ofCons, h]

theorem ofCons_of_numeral (h : Onset.ofChar c = .numeral) : ofCons c cs = numeral c cs := by
  rw [ofCons, h]

theorem ofCons_of_pair {simple compound : Operator} (h : Onset.ofChar c = .pair simple compound) :
    ofCons c cs = pair simple compound c cs := by
  rw [ofCons, h]

theorem ofCons_of_single {kind : TokenKind} (h : Onset.ofChar c = .single kind) :
    ofCons c cs = ⟨kind, [c], cs⟩ := by
  rw [ofCons, h]

end Onset

/-- A token begins with the character at the head of the text. -/
theorem exists_literal_eq_cons (c : Char) (cs : List Char) : ∃ l, (ofCons c cs).literal = c :: l := by
  unfold ofCons
  split
  · exact ⟨_, rfl⟩
  · exact ⟨_, rfl⟩
  · unfold pair
    split <;> exact ⟨_, rfl⟩
  · exact ⟨_, rfl⟩

theorem literal_append_rest (c : Char) (cs : List Char) :
    (ofCons c cs).literal ++ (ofCons c cs).rest = c :: cs := by
  unfold ofCons
  split
  · simp [word, List.takeWhile_append_dropWhile]
  · simp [numeral, List.takeWhile_append_dropWhile]
  · unfold pair
    split <;> rfl
  · rfl

theorem literal_ne_nil (c : Char) (cs : List Char) : (ofCons c cs).literal ≠ [] := by
  obtain ⟨l, hl⟩ := exists_literal_eq_cons c cs
  rw [hl]
  exact List.cons_ne_nil c l

theorem rest_length_lt (c : Char) (cs : List Char) :
    (ofCons c cs).rest.length < (c :: cs).length := by
  have h := congrArg List.length (literal_append_rest c cs)
  have hpos := List.length_pos_iff.2 (literal_ne_nil c cs)
  rw [List.length_append] at h
  omega

end Munch

end MonkeyLang
