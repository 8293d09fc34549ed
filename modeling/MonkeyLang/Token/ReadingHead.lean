import MonkeyLang.Text.Slice
import MonkeyLang.Token.Munch

/-!
# A scan by byte offsets

A head reads a text that stays as it is: it stands over one character and knows where the next begins,
and whatever it looks at is a slice of the text.  The slice is there only if the text can be cut at both
ends.  A step that asks for a slice that is not there fails, and so does a run over characters that does
not end.

`Cursor` is the scan over the characters that are left, in which nothing can fail.
-/

namespace MonkeyLang

open Character

/-- A head that reads a text: the offset of the character under it, the offset behind that character,
and the character, if the text is not at an end. -/
structure ReadingHead where
  source : String
  position : Nat
  behind : Nat
  char? : Option Char
deriving DecidableEq, Repr

namespace ReadingHead

/-! ## Characters -/

/-- The character at which the head will stand next. -/
def peek (h : ReadingHead) : Option (Option Char) := do
  let rest ← Span.slice? ⟨h.behind, h.source.utf8ByteSize⟩ h.source
  return rest.toList.head?

/-- Moves the head to the next character, or behind the last. -/
def advance (h : ReadingHead) : Option ReadingHead := do
  let char? ← h.peek
  return ⟨h.source, h.behind, h.behind + char?.elim 0 Char.utf8Size, char?⟩

/-- The head over the first character of a text. -/
def start (source : String) : Option ReadingHead := advance ⟨source, 0, 0, none⟩

/-- Moves the head as long as the characters under it are in a class, but for `n` turns at most. -/
def advanceWhile (p : Char → Bool) : Nat → ReadingHead → Option ReadingHead
  | 0, _ => none
  | n + 1, h =>
    if h.char?.any p then do
      let h ← h.advance
      advanceWhile p n h
    else some h

/-- Moves the head over a run of characters.  It is over in no more turns than the text has bytes, and
one more to see that it is. -/
def run (p : Char → Bool) (h : ReadingHead) : Option ReadingHead :=
  h.advanceWhile p (h.source.utf8ByteSize + 1)

/-! ## Tokens -/

/-- The text from an offset up to the head. -/
def textFrom (h : ReadingHead) (start : Nat) : Option String :=
  Span.slice? ⟨start, h.position⟩ h.source

/-- The token of a given kind from an offset up to the head. -/
def tokenFrom (h : ReadingHead) (kind : TokenKind) (start : Nat) : Option Token := do
  let text ← h.textFrom start
  return ⟨kind, text, ⟨start, h.position⟩⟩

/-- The word from an offset on, with the head over its first letter. -/
def word (h : ReadingHead) (start : Nat) : Option (Token × ReadingHead) := do
  let h ← h.run isLetter
  let word ← h.textFrom start
  let t ← h.tokenFrom (.ofWord word) start
  return (t, h)

/-- The numeral from an offset on, with the head over its first digit. -/
def numeral (h : ReadingHead) (start : Nat) : Option (Token × ReadingHead) := do
  let h ← h.run isDigit
  let t ← h.tokenFrom .integer start
  return (t, h)

/-- The symbol of a given kind from an offset on, with the head over its last character. -/
def symbol (h : ReadingHead) (kind : TokenKind) (start : Nat) : Option (Token × ReadingHead) := do
  let h ← h.advance
  let t ← h.tokenFrom kind start
  return (t, h)

/-- The operator `compound` if the sign `=` is next, and then the head moves over it; otherwise
`simple`. -/
def either (h : ReadingHead) (simple compound : Operator) : Option (TokenKind × ReadingHead) := do
  if (← h.peek) = some '=' then
    let h ← h.advance
    return (.operator compound, h)
  else return (.operator simple, h)

/-- The token that begins with the character `c` under the head, and the head behind it. -/
def munch (h : ReadingHead) (c : Char) : Option (Token × ReadingHead) :=
  match Onset.ofChar c with
  | .word => h.word h.position
  | .numeral => h.numeral h.position
  | .pair simple compound => do
    let (kind, h') ← h.either simple compound
    h'.symbol kind h.position
  | .single kind => h.symbol kind h.position

/-- The next token, and the head behind it. -/
def next (h : ReadingHead) : Option (Token × ReadingHead) := do
  let h ← h.run isBlank
  match h.char? with
  | none => return (.endOfText h.position, h)
  | some c => h.munch c

/-- The next `n` tokens, and the head behind them. -/
def take : Nat → ReadingHead → Option (List Token × ReadingHead)
  | 0, h => some ([], h)
  | n + 1, h => do
    let (t, h) ← h.next
    let (ts, h) ← take n h
    return (t :: ts, h)

/-- The tokens up to the end of the text, if there are at most `n`. -/
def takeAll : Nat → ReadingHead → Option (List Token)
  | 0, _ => none
  | n + 1, h => do
    let (t, h) ← h.next
    if t.isEndOfText then return [t]
    else
      let ts ← takeAll n h
      return t :: ts

/-- The tokens up to the end of the text, of which there are no more than the text has bytes, and the
token for the end. -/
def tokens (h : ReadingHead) : Option (List Token) := h.takeAll (h.source.utf8ByteSize + 1)

end ReadingHead

end MonkeyLang
