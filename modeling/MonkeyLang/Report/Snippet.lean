import MonkeyLang.Report.ContextSearch
import MonkeyLang.Text.Column
import MonkeyLang.Text.Line

/-!
# Source snippets

A snippet shows the lines around a span of a text, one line before and one after, and underlines the
span.  The line numbers stand in a margin to the left, and a header gives the place of the span.

The span is looked for in the bytes of the text, once with a line of context and once without.  The end of a
text is a place like any other, and so is the offset one byte behind it; a span that reaches further is not
found, and a line that says so stands in place of the snippet.
-/

namespace MonkeyLang.Snippet

/-- The characters of a text that lie within its first `n` bytes. -/
def takeBytes : Nat → List Char → List Char
  | _, [] => []
  | n, c :: cs => if c.utf8Size ≤ n then c :: takeBytes (n - c.utf8Size) cs else []

/-- The column of a line at which the byte offset `pos` is shown.  A place behind the characters of
the line, in its line break or past it, is one column further on. -/
def columnOf (l : Line) (pos : Nat) : Nat :=
  let n := pos - l.start
  Column.after 0 (takeBytes n l.text) + if byteLength l.text < n then 1 else 0

/-- The index of the line in which an offset lies: how many line breaks end at or before it. -/
def lineIndex (ls : List Line) (pos : Nat) : Nat :=
  ls.countP fun l => l.isBroken && decide (l.stop ≤ pos)

/-- The offset one byte before the end of a span, or the start of the text. -/
def lastByte (s : Span) : Nat := s.start + s.length - 1

/-- The lines to show for a span, with the number of each: from the line before the one in which the
span starts to the line after the one in which it ends. -/
def shownLines (ls : List Line) (s : Span) : List (Nat × Line) :=
  let first := lineIndex ls s.start - 1
  let last := (ls.countP fun l => l.isBroken && decide (l.textStop ≤ lastByte s)) + 1
  ((List.range' 1 ls.length).zip ls).take (last + 1) |>.drop first

/-- A row of `n` copies of a character. -/
def row (n : Nat) (c : Char) : String := String.ofList (List.replicate n c)

/-- A text at the right end of a field of `n` columns. -/
def alignRight (n : Nat) (s : String) : String := row (n - s.length) ' ' ++ s

/-- Whether a span starts or ends on a line; the offset at which the line starts does not end a
span on it. -/
def touches (s : Span) (l : Line) : Bool :=
  let stop := s.start + max s.length 1
  (l.start ≤ s.start && decide (s.start < l.stop)) || (l.start < stop && decide (stop ≤ l.stop))

/-- The underline of a span on one line: a rule below the span, and below its middle the label. -/
def underline (margin label : String) (s : Span) (l : Line) : List String :=
  let a := columnOf l s.start
  let z := if s.length = 0 then a + 1 else max (columnOf l (s.start + s.length)) (a + 1)
  let m := (a + z) / 2
  let pointer := if s.length = 0 then "▲" else "┬"
  [margin ++ row a ' ' ++ row (m - a) '─' ++ pointer ++ row (z - m - 1) '─',
    margin ++ row m ' ' ++ "╰── " ++ label]

/-- One line of the text, and the underline if the span starts or ends on it. -/
def showLine (numberWidth : Nat) (label : String) (s : Span) (number : Nat) (l : Line) :
    List String :=
  (" " ++ alignRight numberWidth (toString number) ++ " │ "
      ++ String.ofList (Column.expandTabs 0 l.text)) ::
    if touches s l then underline (" " ++ row numberWidth ' ' ++ " · ") label s l else []

/-- The header of a snippet: the file, and a line and a column of it. -/
def header (file : String) (line column : Nat) : String :=
  "╭─[" ++ file ++ ":" ++ toString line ++ ":" ++ toString column ++ "]"

/-- The line in place of a snippet of a span that is not found. -/
def failedLine (label : String) (s : Span) : String :=
  "  [Failed to read contents for label `" ++ label ++ "` (offset: " ++ toString s.start
    ++ ", length: " ++ toString s.length ++ "): OutOfBounds]"

/-- The lines of the snippet of a span that is found at `place`.  The margin is as wide as the last line
number that is shown. -/
def body (file source label : String) (s : Span) (place : Context) : List String :=
  let shown := shownLines (lines source) s
  let numberWidth := (toString (shown.getLast?.elim 0 (·.1))).length
  [row (numberWidth + 2) ' ' ++ header file (place.line + 1) (place.column + 1)]
    ++ shown.flatMap (fun (number, l) => showLine numberWidth label s number l)
    ++ [row (numberWidth + 2) ' ' ++ "╰────"]

/-- The snippet of a span of the text `source`, headed by the name of the file.  There is none if the span
is found with a line of context, but not without. -/
def render (file source label : String) (s : Span) : Option (List String) :=
  match ContextSearch.readSpan source s 1 with
  | none => some [failedLine label s]
  | some _ => (ContextSearch.readSpan source s 0).map (body file source label s)

end MonkeyLang.Snippet
