import MonkeyLang.Proofs.Lookahead

/-!
# A parser on a scanner that has been moved on

A parser may be put to a scanner of which some tokens have been taken already.  It does not know of them: its
first window has an offset of nought, so all that the scanner has passed is in the gap before its first token,
and a line feed there would be taken for one before that token.  But a line is never asked for before the
window has been moved, and then the offset is where the parser's own first token ends
(`Work.endsHere_run`).  So the parser reads what is left as if that were a text of its own
(`Work.program_behind_take`).

When it has come to the end of the text, it stays there.  Asked once more for a program, it reads nothing and
changes nothing (`Work.program_run_at_end`).
-/

namespace MonkeyLang

namespace Work

/-- **A parser sees exactly what is left of the text.**  Put to a scanner of which `n` tokens have been taken,
it ends, as soon as its time is enough, with the statements and the errors of the slice from the end of the
last of them, moved to their place.  The number may be greater than there are tokens.  Asked once more for a
program, it gives no statement and is in all as it was. -/
theorem program_behind_take (source : String) (n : Nat) (settings : Settings) :
    let taken := Scanner.take n (.ofString source)
    let offset := Cursor.lastStop 0 taken.1
    ∃ text j, Span.slice? ⟨offset, source.utf8ByteSize⟩ source = some text ∧
      (∀ m, (program ((tokens source).length + 1 + m) []).run (.ofScanner taken.2 settings) =
        some (((parse text settings).program.mapSpan (.shift offset)).statements, j)) ∧
      j.errors = (parse text settings).errors.map (ParseError.shift offset) ∧
      ∀ m, (program (m + 1) []).run j = some ([], j) := by
  intro taken offset
  have htaken : taken = ((Cursor.ofString source).taken n,
      ⟨source, (Cursor.ofString source).skip n⟩) := Scanner.take_eq n (.ofString source)
  have hin : taken.2.IsIn := by
    rw [htaken]
    exact (Cursor.isIn_ofString source).skip n
  have hn : taken.2.cursor.lexemes.length + 1 < (tokens source).length + 1 := by
    rw [htaken, Cursor.lexemes_skip, List.length_drop, tokens_eq_append, List.length_append,
      List.length_map, List.length_singleton]
    omega
  obtain ⟨text, hslice, hparse⟩ := Parser.parse_ofCursor_skip source n settings
  obtain ⟨j, i, hrun, herrors, hat, hend⟩ := program_ofScanner hin settings hn
  have hoffset : offset = Cursor.lastStop 0 ((Cursor.ofString source).taken n) := by
    show Cursor.lastStop 0 taken.1 = _
    rw [htaken]
  have hcursor : taken.2.cursor = (Cursor.ofString source).skip n := by rw [htaken]
  rw [hcursor, hparse, ← hoffset] at hrun herrors
  rw [← hoffset] at hslice
  refine ⟨text, j, hslice, fun m => ?_, herrors, fun m => program_run_at_end hat hend m []⟩
  exact program_persists_add _ m [] _ _ hrun

/-- The line feed before the first token of the parser is not asked for when that token is refused. -/
example : ((program 9 []).run (.ofScanner (Scanner.take 1 (.ofString "x\n) 1\nb")).2 {})).map
    (fun r => r.2.asked.map (·.2)) = some [false, true] := by decide

end Work

end MonkeyLang
