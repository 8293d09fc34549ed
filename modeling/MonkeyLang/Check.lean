import MonkeyLang.Program.Parse

/-!
# Checking a file

A file is accepted if its text parses without an error; the answer is then the program, and otherwise
a rejection with all errors of the file.
-/

namespace MonkeyLang

/-- Why a file is not accepted: every error in its text, in the order of the text. -/
structure Rejection where
  file : String
  errors : List ParseError
deriving DecidableEq, Repr

/-- A rejection in one line. -/
def Rejection.message (r : Rejection) : String :=
  r.file ++ ": " ++ toString r.errors.length ++ " syntax error(s)"

/-- The program of a file, if its text parses without an error. -/
def check (file source : String) : Except Rejection Program :=
  match (parse source).result with
  | .ok program => .ok program
  | .error errors => .error ⟨file, errors⟩

end MonkeyLang
