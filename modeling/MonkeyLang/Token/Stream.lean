import MonkeyLang.Text.Size
import MonkeyLang.Token.Munch

/-!
# Token streams

A text is read as a stream of tokens with blanks between them.  A `Cursor` is a place in the text; it
yields the next token and moves behind it.  A `Lexeme` is a token together with the one thing that its
layout tells: whether a line feed stands in the blank before it.

Reading never fails, and it ends: each token takes at least one character
(`Cursor.next?_rest_length_lt`).  At the end of the text every further token is the same token for the
end, which is no lexeme.
-/

namespace MonkeyLang

/-- A token, and whether a line feed stands in the blank before it. -/
structure Lexeme where
  token : Token
  startsLine : Bool
deriving DecidableEq, Repr

/-- The kind of a lexeme's token. -/
abbrev Lexeme.kind (t : Lexeme) : TokenKind := t.token.kind

/-- A place in a text: how many bytes are before it, and the characters from there on. -/
structure Cursor where
  offset : Nat
  rest : List Char
deriving DecidableEq, Repr

namespace Cursor

/-- The start of a text. -/
def ofString (source : String) : Cursor := ⟨0, source.toList⟩

/-- The offset at which the text ends. -/
def stop (c : Cursor) : Nat := c.offset + byteLength c.rest

/-- The end of the text. -/
def atStop (c : Cursor) : Cursor := ⟨c.stop, []⟩

/-- The blanks at a place. -/
def gap (c : Cursor) : List Char := c.rest.takeWhile Character.isBlank

/-- The next lexeme and the place behind it, if the text has anything but blanks left. -/
def next? (c : Cursor) : Option (Lexeme × Cursor) :=
  match c.rest.dropWhile Character.isBlank with
  | [] => none
  | d :: ds =>
    let m := Munch.ofCons d ds
    let start := c.offset + byteLength c.gap
    let stop := start + byteLength m.literal
    some (⟨⟨m.kind, String.ofList m.literal, ⟨start, stop⟩⟩, c.gap.contains '\n'⟩, ⟨stop, m.rest⟩)

theorem next?_rest_length_lt {c c' : Cursor} {t : Lexeme} (h : c.next? = some (t, c')) :
    c'.rest.length < c.rest.length := by
  unfold next? at h
  split at h
  · exact absurd h (by simp)
  · rename_i d ds hd
    have hsuf := (List.dropWhile_suffix (l := c.rest) Character.isBlank).length_le
    have hlt := Munch.rest_length_lt d ds
    rw [hd] at hsuf
    simp only [Option.some.injEq, Prod.mk.injEq] at h
    rw [← h.2]
    exact Nat.lt_of_lt_of_le hlt hsuf

/-- Reading a token does not move the end of the text. -/
theorem next?_stop {c c' : Cursor} {t : Lexeme} (h : c.next? = some (t, c')) :
    c'.stop = c.stop := by
  unfold next? at h
  split at h
  · exact absurd h (by simp)
  · rename_i d ds hd
    have hgap := byteLength_takeWhile_add_dropWhile Character.isBlank c.rest
    have hcut := congrArg byteLength (Munch.literal_append_rest d ds)
    rw [byteLength_append, ← hd] at hcut
    simp only [Option.some.injEq, Prod.mk.injEq] at h
    rw [← h.2]
    simp only [stop, gap]
    omega

/-- All lexemes from a place on. -/
def lexemes (c : Cursor) : List Lexeme :=
  match _h : c.next? with
  | none => []
  | some (t, c') => t :: lexemes c'
termination_by c.rest.length
decreasing_by exact next?_rest_length_lt (by assumption)

theorem lexemes_of_next?_eq_none {c : Cursor} (h : c.next? = none) : c.lexemes = [] := by
  rw [lexemes]
  split
  · rfl
  · simp_all

theorem lexemes_of_next?_eq_some {c c' : Cursor} {t : Lexeme} (h : c.next? = some (t, c')) :
    c.lexemes = t :: c'.lexemes := by
  rw [lexemes]
  split
  · simp_all
  · simp_all

/-- The next token and the place behind it; at the end of the text, the token for the end. -/
def next (c : Cursor) : Token × Cursor :=
  match c.next? with
  | some (t, c') => (t.token, c')
  | none => (.endOfText c.stop, c.atStop)

/-- The place behind the next `n` tokens. -/
def skip (c : Cursor) : Nat → Cursor
  | 0 => c
  | n + 1 => c.next.2.skip n

/-- All tokens from a place on, with the token for the end of the text as the last. -/
def tokens (c : Cursor) : List Token := c.lexemes.map (·.token) ++ [.endOfText c.stop]

end Cursor

@[simp] theorem Cursor.stop_ofString (source : String) :
    (Cursor.ofString source).stop = source.utf8ByteSize := by
  simp [ofString, stop]

/-- The tokens of a text, with the token for its end as the last. -/
def tokens (source : String) : List Token := (Cursor.ofString source).tokens

theorem tokens_eq_append (source : String) :
    tokens source = (Cursor.ofString source).lexemes.map (·.token) ++
      [.endOfText source.utf8ByteSize] := by
  rw [tokens, Cursor.tokens, Cursor.stop_ofString]

/-- A text that is read token by token, and the place that has been reached. -/
structure Scanner where
  source : String
  cursor : Cursor
deriving DecidableEq, Repr

namespace Scanner

/-- A scanner at the start of a text. -/
def ofString (source : String) : Scanner := ⟨source, .ofString source⟩

/-- The next token, and the scanner behind it. -/
def next (s : Scanner) : Token × Scanner := (s.cursor.next.1, ⟨s.source, s.cursor.next.2⟩)

/-- The next `n` tokens, and the scanner behind them. -/
def take : Nat → Scanner → List Token × Scanner
  | 0, s => ([], s)
  | n + 1, s => (s.next.1 :: (take n s.next.2).1, (take n s.next.2).2)

/-- All tokens that are left, with the token for the end of the text as the last. -/
def tokens (s : Scanner) : List Token := s.cursor.tokens

end Scanner

end MonkeyLang
