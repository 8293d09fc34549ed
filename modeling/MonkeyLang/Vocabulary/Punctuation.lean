/-!
# Punctuation

The delimiters and separators of the language.
-/

namespace MonkeyLang

/-- A delimiter or separator. -/
inductive Punctuation where
  | comma
  | semicolon
  | leftParen
  | rightParen
  | leftBrace
  | rightBrace
deriving DecidableEq, Repr

namespace Punctuation

/-- All punctuation, in the order in which it is listed. -/
def all : List Punctuation :=
  [comma, semicolon, leftParen, rightParen, leftBrace, rightBrace]

/-- The mark as it stands in a text. -/
def spelling : Punctuation → String
  | comma => ","
  | semicolon => ";"
  | leftParen => "("
  | rightParen => ")"
  | leftBrace => "\x7b"
  | rightBrace => "\x7d"

/-- The mark with a given spelling. -/
def ofSpelling? (s : String) : Option Punctuation := all.find? fun p => p.spelling == s

theorem mem_all (p : Punctuation) : p ∈ all := by
  cases p <;> decide

theorem spelling_injective {p q : Punctuation} (h : p.spelling = q.spelling) : p = q := by
  revert h; cases p <;> cases q <;> decide

@[simp] theorem ofSpelling?_spelling (p : Punctuation) : ofSpelling? p.spelling = some p := by
  cases p <;> decide

theorem ofSpelling?_eq_some_iff {s : String} {p : Punctuation} :
    ofSpelling? s = some p ↔ p.spelling = s :=
  ⟨fun h => by simpa using List.find?_some h, fun h => h ▸ ofSpelling?_spelling p⟩

end Punctuation

end MonkeyLang
