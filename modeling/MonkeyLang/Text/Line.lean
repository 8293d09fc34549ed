import MonkeyLang.Text.Size

/-!
# Lines

A text falls into lines, each ended by a line feed, with or without a carriage return before it, or by
the end of the text.  Nothing after the last line break is no line.
-/

namespace MonkeyLang

/-- A line: the offset at which it starts, its characters without the line break, and how many bytes
the line break takes, none if the text ends first. -/
structure Line where
  start : Nat
  text : List Char
  breakSize : Nat
deriving DecidableEq, Repr

namespace Line

/-- The offset at which the characters of a line end. -/
def textStop (l : Line) : Nat := l.start + byteLength l.text

/-- The offset at which the line break of a line ends. -/
def stop (l : Line) : Nat := l.textStop + l.breakSize

/-- Whether a line break ends the line. -/
def isBroken (l : Line) : Bool := l.breakSize != 0

/-- The line that consists of `body` and a line feed, where a carriage return at the end of `body`
belongs to the line break. -/
def ofBody (start : Nat) (body : List Char) : Line :=
  if body.getLast? = some '\r' then ⟨start, body.dropLast, 2⟩ else ⟨start, body, 1⟩

/-- Whether a character does not end a line. -/
def isInner (c : Char) : Bool := c != '\n'

/-- The lines of a text that starts at the offset `start`. -/
def linesFrom (start : Nat) (cs : List Char) : List Line :=
  match _h : cs.dropWhile isInner with
  | [] => if cs.isEmpty then [] else [⟨start, cs, 0⟩]
  | _ :: rest =>
    let line := ofBody start (cs.takeWhile isInner)
    line :: linesFrom line.stop rest
termination_by cs.length
decreasing_by
  have hs := (List.dropWhile_suffix (l := cs) isInner).length_le
  rw [_h] at hs
  exact hs

end Line

/-- The lines of a text. -/
def lines (source : String) : List Line := Line.linesFrom 0 source.toList

end MonkeyLang
