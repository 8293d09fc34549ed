import MonkeyLang.Text.Slice
import MonkeyLang.Token.Stream

/-!
# A window of two tokens

Who reads a text with one token of lookahead has two tokens before him, the current one and the one
ahead.  A `Window` is these two, with the scanner that the next will be taken from and the offset at which
the token before the current one ends.  It is moved by one token at a time, and at the end of the text it
can be moved on for ever.

A window is put to a scanner that may have been moved on already.  It does not know of the tokens that were
taken before, so its first offset is nought wherever the scanner stands.
-/

namespace MonkeyLang

/-- The current token of a text and the one ahead, with all that is needed to move on. -/
structure Window where
  scanner : Scanner
  current : Token
  ahead : Token
  /-- Where the token before the current one ends. -/
  behind : Nat
deriving DecidableEq, Repr

namespace Window

/-- The window over the next two tokens of a scanner.  As no token is before them, it has an offset of
nought. -/
def ofScanner (s : Scanner) : Window := ⟨s.next.2.next.2, s.next.1, s.next.2.next.1, 0⟩

/-- The window one token further on. -/
def advance (w : Window) : Window :=
  ⟨w.scanner.next.2, w.ahead, w.scanner.next.1, w.current.span.stop⟩

/-- The text between the token before the current one and that. -/
def gap? (w : Window) : Option String :=
  Span.slice? ⟨w.behind, w.current.span.start⟩ w.scanner.source

/-- Whether a line feed is between the token before the current one and that.  Where there is no text
between them, there is none. -/
def startsLine (w : Window) : Bool := w.gap?.any (·.toList.contains '\n')

end Window

end MonkeyLang
