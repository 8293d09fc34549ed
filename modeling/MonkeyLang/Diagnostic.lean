import MonkeyLang.Span

/-!
# Diagnostics

A diagnostic tells what is wrong at a span of the source: a message, the kind of the error, and
possibly a hint on what to do about it.
-/

namespace MonkeyLang

/-- The kind of an error. -/
inductive ErrorKind where
  /-- The source is no text of the language. -/
  | malformed
  /-- The source asks for more than the parser is set to give. -/
  | limitExceeded
deriving DecidableEq, Repr

namespace ErrorKind

/-- The kind in words; these label the offending span in a report. -/
def label : ErrorKind → String
  | malformed => "syntax error"
  | limitExceeded => "limit exceeded"

/-- The code under which errors of the kind are known. -/
def code : ErrorKind → String
  | malformed => "monkey::syntax"
  | limitExceeded => "monkey::limit"

end ErrorKind

/-- What is wrong, and where. -/
structure Diagnostic where
  message : String
  span : Span
  kind : ErrorKind
  hint : Option String
deriving DecidableEq, Repr

namespace Diagnostic

/-- A diagnostic of a given kind, without a hint. -/
def plain (kind : ErrorKind) (message : String) (span : Span) : Diagnostic :=
  ⟨message, span, kind, none⟩

/-- A diagnostic on a malformed text, without a hint. -/
def malformed (message : String) (span : Span) : Diagnostic := plain .malformed message span

/-- A diagnostic on an exceeded limit, without a hint. -/
def limitExceeded (message : String) (span : Span) : Diagnostic := plain .limitExceeded message span

/-- The same diagnostic with `hint` in place of any hint that it had. -/
def withHint (d : Diagnostic) (hint : String) : Diagnostic := { d with hint := some hint }

/-- The code of a diagnostic, which is that of its kind. -/
def code (d : Diagnostic) : String := d.kind.code

/-- The words that mark the offending span. -/
def label (d : Diagnostic) : String := d.kind.label

end Diagnostic

end MonkeyLang
