/-!
# Operators

The operators of the language, their spellings, and the places in which each may stand: before its
one operand, between its two operands, or, for the sign of a binding, in neither.
-/

namespace MonkeyLang

/-- A place in which an operator may stand. -/
inductive Fixity where
  /-- Before the one operand. -/
  | unary
  /-- Between two operands. -/
  | binary
deriving DecidableEq, Repr

/-- An operator. -/
inductive Operator where
  | assign
  | plus
  | minus
  | star
  | slash
  | bang
  | less
  | greater
  | equal
  | notEqual
deriving DecidableEq, Repr

namespace Operator

/-- All operators, in the order in which they are listed. -/
def all : List Operator :=
  [assign, plus, minus, star, slash, bang, less, greater, equal, notEqual]

/-- The operator as it stands in a text. -/
def spelling : Operator → String
  | assign => "="
  | plus => "+"
  | minus => "-"
  | star => "*"
  | slash => "/"
  | bang => "!"
  | less => "<"
  | greater => ">"
  | equal => "=="
  | notEqual => "!="

/-- The places in which an operator may stand. -/
def fixities : Operator → List Fixity
  | assign => []
  | bang => [.unary]
  | minus => [.unary, .binary]
  | _ => [.binary]

/-- Whether the operator may stand before one operand. -/
def isUnary (o : Operator) : Bool := o.fixities.contains .unary

/-- Whether the operator may stand between two operands. -/
def isBinary (o : Operator) : Bool := o.fixities.contains .binary

/-- The operator with a given spelling. -/
def ofSpelling? (s : String) : Option Operator := all.find? fun o => o.spelling == s

theorem mem_all (o : Operator) : o ∈ all := by
  cases o <;> decide

theorem spelling_injective {o p : Operator} (h : o.spelling = p.spelling) : o = p := by
  revert h; cases o <;> cases p <;> decide

@[simp] theorem ofSpelling?_spelling (o : Operator) : ofSpelling? o.spelling = some o := by
  cases o <;> decide

theorem ofSpelling?_eq_some_iff {s : String} {o : Operator} :
    ofSpelling? s = some o ↔ o.spelling = s :=
  ⟨fun h => by simpa using List.find?_some h, fun h => h ▸ ofSpelling?_spelling o⟩

end Operator

end MonkeyLang
