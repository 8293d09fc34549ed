import MonkeyLang.Span

/-!
# A search for the place of a span

A search over the bytes of a text goes through them from the first, counts line breaks and columns up to the
start of a span, and stops some lines behind its end (`ContextSearch.run`).  It fails if the text ends too
early for the span.  A line break is a line feed, a carriage return, or the two as a pair.
-/

namespace MonkeyLang

/-- What a search over the bytes of a text has found so far. -/
structure ContextSearch where
  /-- How many bytes it has passed. -/
  offset : Nat
  /-- The number of the first line of the context, counted from zero. -/
  line : Nat
  /-- How many bytes of the line of the span are before the span. -/
  column : Nat
  /-- The offset at which the present line starts. -/
  lineStart : Nat
  /-- The offsets at which the lines of context before the span start. -/
  before : List Nat
  /-- Whether the end of the span has been reached. -/
  reached : Bool
  /-- Whether a line break has been passed since. -/
  broken : Bool
  /-- How many lines have been passed since that line break. -/
  after : Nat
deriving DecidableEq, Repr

/-- A part of a text around a span: its bytes, the number of its first line, and the column of the span
if there is no context. -/
structure Context where
  bytes : Span
  line : Nat
  column : Nat
deriving DecidableEq, Repr

namespace ContextSearch

/-- A search that has passed no byte yet. -/
def start : ContextSearch := ⟨0, 0, 0, 0, [], false, false, 0⟩

/-- The line feed, as a byte. -/
def lineFeed : UInt8 := 10

/-- The carriage return, as a byte. -/
def carriageReturn : UInt8 := 13

/-- Goes on to the next byte. -/
def pass (h : ContextSearch) : ContextSearch := { h with offset := h.offset + 1 }

/-- A line break before the span puts one line more into the context, and the first one out of it if
there are more than `n`. -/
def breakBefore (n : Nat) (h : ContextSearch) : ContextSearch :=
  let before := h.before ++ [h.lineStart]
  if n < before.length then { h with column := 0, line := h.line + 1, before := before.tail }
  else { h with column := 0, before := before }

/-- A line break behind the span is the end of the last line of the span, or of one line more of the
context. -/
def breakAfter (h : ContextSearch) : ContextSearch :=
  if h.broken then { h with column := 0, after := h.after + 1 }
  else { h with column := 0, broken := true }

/-- Looks at the byte `b`, and tells whether the search is over with it. -/
def look (n : Nat) (s : Span) (b : UInt8) (h : ContextSearch) : ContextSearch × Bool :=
  if b = carriageReturn ∨ b = lineFeed then
    if h.offset < s.start then
      ({ h.breakBefore n with lineStart := h.offset + 1 }, false)
    else if s.start + (s.length - 1) ≤ h.offset ∧ h.reached then
      if n ≤ h.breakAfter.after then (h.breakAfter, true)
      else ({ h.breakAfter with lineStart := h.offset + 1 }, false)
    else ({ h with lineStart := h.offset + 1 }, false)
  else if h.offset < s.start then ({ h with column := h.column + 1 }, false)
  else (h, false)

/-- The search at the end of a byte: it is over if the span ends here and no lines are missing. -/
def settle (n : Nat) (s : Span) (h : ContextSearch) : ContextSearch × Bool :=
  if s.start + s.length - 1 ≤ h.offset then ({ h with reached := true }, decide (n ≤ h.after))
  else (h, false)

/-- One turn of the search, at the byte `b`. -/
def turn (n : Nat) (s : Span) (b : UInt8) (h : ContextSearch) : ContextSearch × Bool :=
  match h.look n s b with
  | (h, true) => (h.pass, true)
  | (h, false) =>
    match h.settle n s with
    | (h, ended) => (h.pass, ended)

/-- Goes through the bytes until the search is over.  A carriage return before a line feed is passed
over: the two are one line break, which is dealt with at the line feed. -/
def run (n : Nat) (s : Span) : List UInt8 → ContextSearch → ContextSearch
  | [], h => h
  | b :: bs, h =>
    if b = carriageReturn ∧ bs.head? = some lineFeed then run n s bs h.pass
    else
      match h.turn n s b with
      | (h, true) => h
      | (h, false) => run n s bs h

/-- The part of a text with the bytes `bytes` that has the span and `n` lines before and behind it, if
the text is long enough to have the span. -/
def find (n : Nat) (s : Span) (bytes : List UInt8) : Option Context :=
  let h := run n s bytes start
  if h.offset < s.start + s.length - 1 then none
  else some ⟨⟨h.before.head?.getD (if n = 0 then s.start else 0), h.offset⟩, h.line,
    if n = 0 then h.column else 0⟩

/-- The part of a text that has the span and `n` lines before and behind it. -/
def readSpan (source : String) (s : Span) (n : Nat) : Option Context :=
  find n s source.toByteArray.data.toList

end ContextSearch

end MonkeyLang
