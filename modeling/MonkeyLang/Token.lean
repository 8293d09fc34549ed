import MonkeyLang.Span
import MonkeyLang.Vocabulary.Keyword
import MonkeyLang.Vocabulary.Operator
import MonkeyLang.Vocabulary.Punctuation

/-!
# Tokens

A token is the least unit of the language: a kind, the text that is the token, and the span of that
text.  Words of the vocabulary are of a kind of their own each; names and integers are told apart
from one another by their text alone.
-/

namespace MonkeyLang

/-- The kind of a token. -/
inductive TokenKind where
  | keyword (k : Keyword)
  | operator (o : Operator)
  | punctuation (p : Punctuation)
  /-- A word that is no keyword. -/
  | name
  /-- A run of digits. -/
  | integer
  /-- A character that no token of the language begins with. -/
  | illegal
  /-- The end of the text. -/
  | endOfText
deriving DecidableEq, Repr

namespace TokenKind

/-- The kind as diagnostics speak of it. -/
def display : TokenKind → String
  | keyword k => k.tokenName
  | operator o => o.spelling
  | punctuation p => p.spelling
  | name => "IDENT"
  | integer => "INT"
  | illegal => "ILLEGAL"
  | endOfText => "EOF"

/-- The kind of a word: a keyword where it is spelled as one, otherwise a name. -/
def ofWord (word : String) : TokenKind :=
  match Keyword.ofSpelling? word with
  | some k => keyword k
  | none => name

/-- The one text that tokens of a kind of the vocabulary have. -/
def spelling? : TokenKind → Option String
  | keyword k => some k.spelling
  | operator o => some o.spelling
  | punctuation p => some p.spelling
  | _ => none

/-- The keyword that a kind stands for. -/
def keyword? : TokenKind → Option Keyword
  | keyword k => some k
  | _ => none

/-- Whether a token of this kind may stand before one operand. -/
def isUnary : TokenKind → Bool
  | operator o => o.isUnary
  | _ => false

/-- Whether a token of this kind may stand between two operands. -/
def isBinary : TokenKind → Bool
  | operator o => o.isBinary
  | _ => false

/-- The semicolon, which ends a statement. -/
abbrev semicolon : TokenKind := punctuation .semicolon

/-- Whether a token of this kind ends the statement before it. -/
def endsStatement (kind : TokenKind) : Bool := kind == semicolon || kind == endOfText

/-- Whether a statement begins at every token of this kind. -/
def opensStatement (kind : TokenKind) : Bool := kind == keyword .kwLet || kind == keyword .kwReturn

theorem opensStatement_iff {kind : TokenKind} :
    kind.opensStatement ↔ kind = keyword .kwLet ∨ kind = keyword .kwReturn := by
  simp [opensStatement]

theorem ofWord_spelling (k : Keyword) : ofWord k.spelling = keyword k := by
  simp [ofWord]

theorem ofWord_eq_name_iff {word : String} :
    ofWord word = name ↔ Keyword.ofSpelling? word = none := by
  unfold ofWord
  split <;> simp_all

end TokenKind

/-- A token: its kind, its text, and where in the source the text stands. -/
structure Token where
  kind : TokenKind
  literal : String
  span : Span
deriving DecidableEq, Repr

namespace Token

/-- The token that stands for the end of a text of `n` bytes. -/
def endOfText (n : Nat) : Token := ⟨.endOfText, "", .point n⟩

/-- The token of a given kind and text that starts at offset `start`. -/
def ofText (kind : TokenKind) (literal : String) (start : Nat) : Token :=
  ⟨kind, literal, ⟨start, start + literal.utf8ByteSize⟩⟩

/-- Whether the token stands for the end of the text. -/
def isEndOfText (t : Token) : Bool := t.kind == .endOfText

end Token

end MonkeyLang
