/-!
# Keywords

The reserved words of the language.  A keyword is known by its exact spelling; each also has the
name under which diagnostics speak of it.  Only some of the reserved words have a construct behind
them: the others are set aside for later use.
-/

namespace MonkeyLang

/-- A reserved word. -/
inductive Keyword where
  | kwFn
  | kwLet
  | kwTrue
  | kwFalse
  | kwIf
  | kwElse
  | kwReturn
deriving DecidableEq, Repr

namespace Keyword

/-- All keywords, in the order in which they are listed. -/
def all : List Keyword := [kwFn, kwLet, kwTrue, kwFalse, kwIf, kwElse, kwReturn]

/-- The word as it stands in a text. -/
def spelling : Keyword → String
  | kwFn => "fn"
  | kwLet => "let"
  | kwTrue => "true"
  | kwFalse => "false"
  | kwIf => "if"
  | kwElse => "else"
  | kwReturn => "return"

/-- The name that diagnostics use for the word. -/
def tokenName : Keyword → String
  | kwFn => "FUNCTION"
  | kwLet => "LET"
  | kwTrue => "TRUE"
  | kwFalse => "FALSE"
  | kwIf => "IF"
  | kwElse => "ELSE"
  | kwReturn => "RETURN"

/-- Whether a construct of the language begins with the word; every other word is reserved only. -/
def isUsed : Keyword → Bool
  | kwLet | kwReturn => true
  | _ => false

/-- The keyword with a given spelling. -/
def ofSpelling? (s : String) : Option Keyword := all.find? fun k => k.spelling == s

theorem mem_all (k : Keyword) : k ∈ all := by
  cases k <;> decide

theorem spelling_injective {k l : Keyword} (h : k.spelling = l.spelling) : k = l := by
  revert h; cases k <;> cases l <;> decide

@[simp] theorem ofSpelling?_spelling (k : Keyword) : ofSpelling? k.spelling = some k := by
  cases k <;> decide

theorem ofSpelling?_eq_some_iff {s : String} {k : Keyword} :
    ofSpelling? s = some k ↔ k.spelling = s :=
  ⟨fun h => by simpa using List.find?_some h, fun h => h ▸ ofSpelling?_spelling k⟩

end Keyword

end MonkeyLang
