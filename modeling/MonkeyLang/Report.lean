import MonkeyLang.Diagnostic
import MonkeyLang.Report.Snippet

/-!
# Reports

A report is a diagnostic for a human reader, together with the text that it is on.  A `ReportHandler` puts
reports into words: it looks for the span of the report in the text, and writes what it has to say behind what
has been written before.  It may fail.  `report` has all diagnostics of a file rendered, one after the other,
and where the handler fails it writes the diagnostic in one plain line.

`ReportHandler.graphical` shows the code, the message, a snippet of the text with the offending span
underlined, and the hint.
-/

namespace MonkeyLang

/-- A diagnostic with the text that it is on. -/
structure Report where
  message : String
  code : String
  help : Option String
  /-- The words that mark the span. -/
  label : String
  span : Span
  file : String
  source : String
deriving DecidableEq, Repr

/-- The report on a diagnostic in the text `source` of a file. -/
def Diagnostic.toReport (d : Diagnostic) (file source : String) : Report :=
  ⟨d.message, d.code, d.hint, d.label, d.span, file, source⟩

/-- What renders reports. -/
structure ReportHandler where
  /-- The part of a text that has a span and some lines before and behind it, if it is found. -/
  readSpan : String → Span → Nat → Option Context
  /-- Writes a report behind what has been written before.  A failure leaves what was written until then. -/
  render : Report → String → Except String String

/-- Lines as they stand in a text. -/
def unlines (ls : List String) : String := String.join (ls.map (· ++ "\n"))

namespace ReportHandler

/-- The handler that shows snippets. -/
def graphical : ReportHandler where
  readSpan := ContextSearch.readSpan
  render r out :=
    let out := out ++ unlines [r.code, "", "  × " ++ r.message]
    match Snippet.render r.file r.source r.label r.span with
    | none => .error out
    | some snippet => .ok (out ++ unlines snippet ++ unlines (r.help.toList.map ("  help: " ++ ·)))

/-- Has a diagnostic in the text `source` of a file rendered behind what has been written before. -/
def write (handler : ReportHandler) (file source out : String) (d : Diagnostic) : String :=
  match handler.render (d.toReport file source) out with
  | .ok out => out
  | .error out => out ++ d.kind.label ++ ": " ++ d.message ++ "\n"

end ReportHandler

/-- The report on the diagnostics of a file. -/
def report (file source : String) (ds : List Diagnostic) (handler : ReportHandler := .graphical) :
    String :=
  ds.foldl (handler.write file source) ""

end MonkeyLang
