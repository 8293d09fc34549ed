import MonkeyLang.Proofs.Excerpt
import MonkeyLang.Proofs.Layout

/-!
# What is left of a text

A scanner that has been moved on has what is left of its text before it, and that is a text of its own: the
slice from the end of the last token taken (`Cursor.exists_skip`, beyond the end of the text too).  The
lexemes that are left are those of that slice, moved, so they parse to what the slice parses to, moved
(`Parser.parse_ofCursor_skip`).
-/

namespace MonkeyLang

namespace Cursor

/-- The next `n` tokens, the one for the end of the text again and again if there are not as many. -/
def taken (c : Cursor) : Nat → List Token
  | 0 => []
  | n + 1 => c.next.1 :: c.next.2.taken n

/-- One step takes some characters, and the token ends where the scan goes on. -/
theorem exists_next (c : Cursor) :
    ∃ l, c.rest = l ++ c.next.2.rest ∧ c.next.2.offset = c.offset + byteLength l ∧
      c.next.1.span.stop = c.next.2.offset := by
  cases hc : c.next? with
  | none =>
    have hnext : c.next = (.endOfText c.stop, c.atStop) := by rw [next, hc]
    rw [hnext]
    exact ⟨c.rest, (List.append_nil _).symm, rfl, rfl⟩
  | some r =>
    obtain ⟨t, c'⟩ := r
    have hnext : c.next = (t.token, c') := by rw [next, hc]
    obtain ⟨w, -, hrest, -, hstart, hstop, hoffset⟩ := exists_gap_of_next? hc
    rw [hnext]
    refine ⟨w ++ t.token.literal.toList, hrest, ?_, hoffset.symm⟩
    show c'.offset = c.offset + byteLength (w ++ t.token.literal.toList)
    rw [byteLength_append]
    omega

/-- Any number of steps take some characters, and the last token taken ends where the scan goes on. -/
theorem exists_skip (c : Cursor) (n : Nat) :
    ∃ l, c.rest = l ++ (c.skip n).rest ∧ (c.skip n).offset = c.offset + byteLength l ∧
      lastStop c.offset (c.taken n) = (c.skip n).offset := by
  induction n generalizing c with
  | zero => exact ⟨[], rfl, rfl, rfl⟩
  | succ n ih =>
    obtain ⟨l, hrest, hoffset, hstop⟩ := c.exists_next
    obtain ⟨m, hrest', hoffset', hstop'⟩ := ih c.next.2
    refine ⟨l ++ m, ?_, ?_, ?_⟩
    · rw [hrest, hrest', List.append_assoc]
      rfl
    · rw [byteLength_append, skip, hoffset', hoffset, Nat.add_assoc]
    · rw [taken, lastStop_cons, hstop, hstop', skip]

end Cursor

/-- The tokens that a scanner gives are those at its place, and it moves as the place does. -/
theorem Scanner.take_eq (n : Nat) (scanner : Scanner) : scanner.take n =
    (scanner.cursor.taken n, ⟨scanner.source, scanner.cursor.skip n⟩) := by
  induction n generalizing scanner with
  | zero => rfl
  | succ n ih =>
    rw [take, ih]
    rfl

namespace Parser

/-- The lexemes of a text that begins `n` bytes on parse to what they parse to by themselves, moved. -/
theorem parse_ofCursor_shift (n : Nat) (text : String) (settings : Settings) :
    (ofCursor ((Cursor.ofString text).shift n) settings).parse =
      (MonkeyLang.parse text settings).mapSpan (.shift n) := by
  have hstop : Span.shift n (.point (Cursor.ofString text).stop) =
      .point ((Cursor.ofString text).shift n).stop := by
    simp only [Span.shift, Span.point, Cursor.shift, Cursor.stop, Nat.add_right_comm]
  have hparse : (ofCursor ((Cursor.ofString text).shift n) settings).parse =
      .ofOutcomes (Program.outcomes settings.maxDepth ((Cursor.ofString text).shift n).stop
        ((Cursor.ofString text).shift n).lexemes) := rfl
  rw [hparse, Cursor.lexemes_shift, Program.outcomes_mapSpan _ hstop, Parse.ofOutcomes_map_mapSpan]
  rfl

/-- **Behind `n` tokens of a text** its lexemes parse to what the slice from the end of the last of them
parses to, moved to its place. -/
theorem parse_ofCursor_skip (source : String) (n : Nat) (settings : Settings) :
    let start := Cursor.ofString source
    let offset := Cursor.lastStop 0 (start.taken n)
    ∃ text, Span.slice? ⟨offset, source.utf8ByteSize⟩ source = some text ∧
      (ofCursor (start.skip n) settings).parse =
        (MonkeyLang.parse text settings).mapSpan (.shift offset) := by
  intro start offset
  obtain ⟨l, hrest, hoffset, hstop⟩ := start.exists_skip n
  obtain ⟨text, htext⟩ : ∃ text : String, text.toList = (start.skip n).rest :=
    ⟨String.ofList _, String.toList_ofList⟩
  have hbehind : (start.skip n).offset = offset := hstop.symm
  have hsource : source = String.ofList l ++ text := by
    have hchars : source.toList = l ++ (start.skip n).rest := hrest
    rw [← String.toList_inj, String.toList_append, String.toList_ofList, hchars, htext]
  have hmoved : start.skip n = (Cursor.ofString text).shift offset := by
    rw [Cursor.ofString, Cursor.shift, Nat.zero_add, htext, ← hbehind]
  refine ⟨text, Span.slice?_eq_some_iff.2 ⟨String.ofList l, "", ?_, ?_, ?_⟩, ?_⟩
  · rw [String.append_empty]
    exact hsource
  · rw [byteLength_ofList, ← hbehind, hoffset]
    exact (Nat.zero_add _).symm
  · rw [← hsource]
  · rw [hmoved, parse_ofCursor_shift]

end Parser

end MonkeyLang
