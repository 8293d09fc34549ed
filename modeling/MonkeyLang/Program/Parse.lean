import MonkeyLang.Program
import MonkeyLang.Settings
import MonkeyLang.Statement.Parse

/-!
# Reading programs

A program is read as a series of attempts at a statement.  An attempt that succeeds gives a statement,
one that fails gives an error, and either way the next attempt begins further on; so a text that is in
part malformed still has a program, the one of the statements that could be read.

The attempts end with the text because each gets past at least one lexeme
(`Statement.attempt_rest_suffix`).  A parser makes them in a loop, with the statements and the errors so far,
and ends with what its text parses to (`Parser.program_eq`).
-/

namespace MonkeyLang

open Statement (Outcome)

/-- The outcomes of all attempts at a statement in a text of `stop` bytes, in order. -/
def Program.outcomes (limit stop : Nat) : List Lexeme → List Outcome
  | [] => []
  | t :: rest =>
    (Statement.attempt limit stop t rest).outcome ::
      outcomes limit stop (Statement.attempt limit stop t rest).rest
termination_by ts => ts.length
decreasing_by exact Nat.lt_succ_of_le (Statement.attempt_rest_suffix limit stop t rest).length_le

/-- There are no more attempts than lexemes. -/
theorem Program.length_outcomes_le (limit stop : Nat) (ts : List Lexeme) :
    (outcomes limit stop ts).length ≤ ts.length := by
  fun_induction outcomes limit stop ts with
  | case1 => exact Nat.le_refl 0
  | case2 t rest ih =>
    have hrest := (Statement.attempt_rest_suffix limit stop t rest).length_le
    rw [List.length_cons, List.length_cons]
    omega

/-- The program that could be read from a text, and what was wrong with the rest of the text. -/
structure Parse where
  program : Program
  errors : List ParseError
deriving DecidableEq, Repr

namespace Parse

/-- The statement that an attempt gave. -/
def statement? : Outcome → Option Statement
  | .ok s => some s
  | .error _ => none

/-- The error that an attempt gave. -/
def error? : Outcome → Option ParseError
  | .ok _ => none
  | .error e => some e

/-- The statements and the errors of a series of attempts, each in their order. -/
def ofOutcomes (os : List Outcome) : Parse :=
  ⟨⟨os.filterMap statement?⟩, os.filterMap error?⟩

/-- Whether all of the text could be read. -/
def isOk (p : Parse) : Bool := p.errors.isEmpty

/-- The errors in words. -/
def diagnostics (p : Parse) : List Diagnostic := p.errors.map ParseError.diagnostic

/-- What the errors say. -/
def messages (p : Parse) : List String := p.errors.map ParseError.message

/-- The program if all of the text could be read, otherwise the errors. -/
def result (p : Parse) : Except (List ParseError) Program :=
  if p.isOk then .ok p.program else .error p.errors

theorem mem_filterMap_statement?_iff {os : List Outcome} {s : Statement} :
    s ∈ os.filterMap statement? ↔ .ok s ∈ os := by
  rw [List.mem_filterMap]
  constructor
  · rintro ⟨o, ho, hs⟩
    cases o with
    | ok s' => rwa [← Option.some.inj hs]
    | error e => cases hs
  · exact fun h => ⟨.ok s, h, rfl⟩

theorem mem_filterMap_error?_iff {os : List Outcome} {e : ParseError} :
    e ∈ os.filterMap error? ↔ .error e ∈ os := by
  rw [List.mem_filterMap]
  constructor
  · rintro ⟨o, ho, he⟩
    cases o with
    | ok s => cases he
    | error e' => rwa [← Option.some.inj he]
  · exact fun h => ⟨.error e, h, rfl⟩

/-- Each attempt gives a statement or an error, and not both. -/
theorem length_add_length_ofOutcomes (os : List Outcome) :
    (ofOutcomes os).program.statements.length + (ofOutcomes os).errors.length = os.length := by
  induction os with
  | nil => rfl
  | cons o os ih =>
    simp only [ofOutcomes] at ih
    cases o with
    | ok s =>
      simp only [ofOutcomes, List.filterMap_cons, statement?, error?, List.length_cons]
      omega
    | error e =>
      simp only [ofOutcomes, List.filterMap_cons, statement?, error?, List.length_cons]
      omega

end Parse

/-- What is found in a list, told of its head. -/
theorem filterMap_cons_eq_append {α β : Type} (f : α → Option β) (a : α) (l : List α) :
    (a :: l).filterMap f = (f a).toList ++ l.filterMap f := by
  cases h : f a <;> simp [h]

/-- A text that is being parsed: the lexemes that are left, where the text ends, and the errors so
far. -/
structure Parser where
  settings : Settings
  rest : List Lexeme
  stop : Nat
  errors : List ParseError
deriving DecidableEq, Repr

namespace Parser

/-- A parser of the text from a cursor on. -/
def ofCursor (c : Cursor) (settings : Settings := {}) : Parser := ⟨settings, c.lexemes, c.stop, []⟩

/-- What the rest of the text parses to. -/
def parse (p : Parser) : Parse :=
  .ofOutcomes (Program.outcomes p.settings.maxDepth p.stop p.rest)

/-- Reads the statements that are left, one attempt after the other, and puts them behind those so far. -/
def programFrom (statements : List Statement) (p : Parser) : Program × Parser :=
  match _h : p.rest with
  | [] => (⟨statements⟩, p)
  | t :: rest =>
    let a := Statement.attempt p.settings.maxDepth p.stop t rest
    programFrom (statements ++ (Parse.statement? a.outcome).toList)
      { p with rest := a.rest, errors := p.errors ++ (Parse.error? a.outcome).toList }
termination_by p.rest.length
decreasing_by
  rw [_h]
  exact Nat.lt_succ_of_le (Statement.attempt_rest_suffix _ _ t rest).length_le

/-- Reads the program that is left, and adds its errors to those so far. -/
def program (p : Parser) : Program × Parser := programFrom [] p

theorem programFrom_eq (statements : List Statement) (p : Parser) :
    programFrom statements p =
      (⟨statements ++ p.parse.program.statements⟩,
        { p with rest := [], errors := p.errors ++ p.parse.errors }) := by
  fun_induction programFrom statements p with
  | case1 statements p hrest =>
    simp only [parse, hrest, Program.outcomes, Parse.ofOutcomes, List.filterMap_nil, List.append_nil]
    rw [← hrest]
  | case2 statements p t rest hrest a ih =>
    rw [ih]
    simp only [parse, hrest, Program.outcomes, Parse.ofOutcomes, filterMap_cons_eq_append,
      List.append_assoc]
    rfl

/-- **The loop over the statements** reads what the rest of the text parses to, and is at the end of the text
then. -/
theorem program_eq (p : Parser) :
    p.program = (p.parse.program, { p with rest := [], errors := p.errors ++ p.parse.errors }) :=
  programFrom_eq [] p

/-- At the end of the text there is no statement left, and no error is added. -/
theorem program_of_rest_eq_nil {p : Parser} (h : p.rest = []) : p.program = (⟨[]⟩, p) := by
  rw [program, programFrom]
  split
  · rfl
  · simp_all

/-- Asked for a program a second time, a parser has none left, and no errors to add. -/
theorem program_program (p : Parser) : p.program.2.program = (⟨[]⟩, p.program.2) := by
  have hrest : p.program.2.rest = [] := by rw [program_eq]
  exact program_of_rest_eq_nil hrest

end Parser

/-- Parses a text. -/
def parse (source : String) (settings : Settings := {}) : Parse :=
  (Parser.ofCursor (.ofString source) settings).parse

end MonkeyLang
