/-!
# Spans

A span is a half-open range of byte offsets in a text.  Offsets count the bytes of the text's UTF-8
form, and a span that stops where it starts covers nothing; the end of a text has such a span.
-/

namespace MonkeyLang

/-- The bytes from offset `start` up to, but not including, offset `stop`. -/
structure Span where
  start : Nat
  stop : Nat
deriving DecidableEq, Repr, Inhabited

namespace Span

/-- The empty span at offset `n`. -/
def point (n : Nat) : Span := ⟨n, n⟩

/-- How many bytes a span covers. -/
def length (s : Span) : Nat := s.stop - s.start

/-- Whether a span covers no byte at all. -/
def isEmpty (s : Span) : Bool := s.start == s.stop

/-- The hull of two spans: the least span that covers both. -/
def hull (a b : Span) : Span := ⟨min a.start b.start, max a.stop b.stop⟩

/-- The span `n` bytes further on, where a text has been put before the one it belongs to. -/
def shift (n : Nat) (s : Span) : Span := ⟨s.start + n, s.stop + n⟩

theorem shift_hull (n : Nat) (a b : Span) : (a.hull b).shift n = (a.shift n).hull (b.shift n) := by
  simp only [shift, hull, Nat.add_min_add_right, Nat.add_max_add_right]

end Span

end MonkeyLang
