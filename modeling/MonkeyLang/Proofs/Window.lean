import Mathlib.Logic.Function.Iterate
import MonkeyLang.Proofs.ReadingHead
import MonkeyLang.Token.Window

/-!
# What a window shows

However often a window has been moved, it shows two neighbours in the row of all tokens that its scanner had
left (`Window.shows_reach`).  As soon as it has been moved, its offset is where a token of the text ends.  So
what is between the offset and the current token is a gap of the text, and blank
(`Window.Shows.exists_gap`); and to look for a line feed there is to ask whether the current token is the
first on its line (`Window.Shows.startsLine_eq`).

Over a text from its start on, that is so of the first window too.  Over a scanner that has been moved on it
is not: all that the scanner has passed is between the offset of the first window and its current token.
-/

namespace MonkeyLang

open Character

/-- The token at index `i` of a text.  Past the end of the text, all tokens are its end. -/
def tokenAt (source : String) (i : Nat) : Token :=
  (tokens source)[i]?.getD (.endOfText source.utf8ByteSize)

/-- The offset at which the token before that at index `i` ends, or the start of the text. -/
def stopBefore (source : String) : Nat → Nat
  | 0 => 0
  | i + 1 => (tokenAt source i).span.stop

namespace Scanner

/-- The token at index `i` of those that are left.  Past the end of the text, all tokens are its end. -/
def tokenAt (scanner : Scanner) (i : Nat) : Token :=
  scanner.tokens[i]?.getD (.endOfText scanner.cursor.stop)

/-- The offset at which the token before that at index `i` ends, and nought for the first of those that are
left. -/
def stopBefore (scanner : Scanner) : Nat → Nat
  | 0 => 0
  | i + 1 => (scanner.tokenAt i).span.stop

/-- The lexemes that are left, from index `i` on. -/
def lexemesFrom (scanner : Scanner) (i : Nat) : List Lexeme := scanner.cursor.lexemes.drop i

/-- The place of the scanner is one of its text. -/
def IsIn (scanner : Scanner) : Prop := scanner.cursor.IsIn scanner.source

end Scanner

namespace Window

/-- The window over what a scanner has left when it has been moved `i` times. -/
def reach (scanner : Scanner) (i : Nat) : Window := advance^[i] (ofScanner scanner)

/-- The window shows the tokens at the indices `i` and `i + 1` of those that the scanner had left. -/
structure Shows (w : Window) (scanner : Scanner) (i : Nat) : Prop where
  scanner_eq : w.scanner = ⟨scanner.source, scanner.cursor.skip (i + 2)⟩
  current_eq : w.current = scanner.tokenAt i
  ahead_eq : w.ahead = scanner.tokenAt (i + 1)
  behind_eq : w.behind = scanner.stopBefore i

end Window

/-! ## Places and indices -/

namespace Cursor

theorem skip_succ (c : Cursor) (n : Nat) : c.skip (n + 1) = (c.skip n).next.2 := by
  induction n generalizing c with
  | zero => rfl
  | succ n ih => exact ih c.next.2

/-- Behind `n` tokens comes the one with index `n`, and the end of the text behind all. -/
theorem next_skip (c : Cursor) (n : Nat) :
    (c.skip n).next.1 = c.tokens[n]?.getD (.endOfText c.stop) := by
  induction n generalizing c with
  | zero =>
    cases hc : c.next? with
    | none =>
      rw [tokens_of_next?_eq_none hc, skip, next_of_next?_eq_none hc]
      rfl
    | some r =>
      rw [tokens_of_next?_eq_some hc, skip, next_of_next?_eq_some hc]
      rfl
  | succ n ih =>
    cases hc : c.next? with
    | none =>
      have hstop : c.atStop.stop = c.stop := Nat.add_zero c.stop
      rw [skip, next_of_next?_eq_none hc, ih, tokens_of_next?_eq_none hc,
        tokens_of_next?_eq_none rfl, hstop]
      cases n <;> rfl
    | some r =>
      rw [skip, next_of_next?_eq_some hc, ih, tokens_of_next?_eq_some hc, next?_stop hc]
      rfl

/-- Behind `n` tokens there are all lexemes but the first `n`. -/
theorem lexemes_skip (c : Cursor) (n : Nat) : (c.skip n).lexemes = c.lexemes.drop n := by
  induction n generalizing c with
  | zero => rfl
  | succ n ih =>
    cases hc : c.next? with
    | none =>
      rw [skip, next_of_next?_eq_none hc, ih, lexemes_of_next?_eq_none hc,
        lexemes_of_next?_eq_none rfl, List.drop_nil, List.drop_nil]
    | some r =>
      rw [skip, next_of_next?_eq_some hc, ih, lexemes_of_next?_eq_some hc, List.drop_succ_cons]

/-- The end of the text stays where it is. -/
theorem stop_skip (c : Cursor) (n : Nat) : (c.skip n).stop = c.stop := by
  obtain ⟨l, hrest, hoffset, -⟩ := c.exists_skip n
  rw [stop, stop, hoffset, hrest, byteLength_append, Nat.add_assoc]

end Cursor

namespace Scanner

variable {scanner : Scanner} {i : Nat} {t : Lexeme} {ts : List Lexeme}

theorem isIn_ofString (source : String) : (ofString source).IsIn := Cursor.isIn_ofString source

theorem tokenAt_ofString (source : String) (i : Nat) :
    (ofString source).tokenAt i = MonkeyLang.tokenAt source i := by
  rw [tokenAt, ofString, Cursor.stop_ofString]
  rfl

theorem stopBefore_ofString (source : String) (i : Nat) :
    (ofString source).stopBefore i = MonkeyLang.stopBefore source i := by
  cases i with
  | zero => rfl
  | succ i => rw [stopBefore, tokenAt_ofString, MonkeyLang.stopBefore]

theorem next_skip (scanner : Scanner) (i : Nat) :
    (scanner.cursor.skip i).next.1 = scanner.tokenAt i := scanner.cursor.next_skip i

/-- Behind one token or more, the scan stands where the last of them ends. -/
theorem offset_skip (hi : 0 < i ∨ scanner.cursor.offset = 0) :
    (scanner.cursor.skip i).offset = scanner.stopBefore i := by
  cases i with
  | zero => exact hi.resolve_left (Nat.lt_irrefl 0)
  | succ i =>
    obtain ⟨l, -, -, hstop⟩ := (scanner.cursor.skip i).exists_next
    rw [Cursor.skip_succ, ← hstop, next_skip]
    rfl

theorem lexemesFrom_eq_skip (scanner : Scanner) (i : Nat) :
    scanner.lexemesFrom i = (scanner.cursor.skip i).lexemes := (scanner.cursor.lexemes_skip i).symm

theorem lexemesFrom_succ (h : scanner.lexemesFrom i = t :: ts) : scanner.lexemesFrom (i + 1) = ts := by
  rw [lexemesFrom, ← List.tail_drop, ← lexemesFrom, h, List.tail_cons]

theorem tokenAt_of_cons (h : scanner.lexemesFrom i = t :: ts) : scanner.tokenAt i = t.token := by
  rw [lexemesFrom_eq_skip] at h
  obtain ⟨c', hc, -⟩ := Cursor.exists_next?_of_lexemes_eq_cons h
  rw [← next_skip, Cursor.next_of_next?_eq_some hc]

theorem tokenAt_of_nil (h : scanner.lexemesFrom i = []) :
    scanner.tokenAt i = .endOfText scanner.cursor.stop := by
  rw [lexemesFrom_eq_skip] at h
  cases hc : (scanner.cursor.skip i).next? with
  | none => rw [← next_skip, Cursor.next_of_next?_eq_none hc, Cursor.stop_skip]
  | some r =>
    rw [Cursor.lexemes_of_next?_eq_some hc] at h
    cases h

/-- A token that is not the end of the text is a lexeme. -/
theorem exists_cons_of_kind {kind : TokenKind} (hk : (scanner.tokenAt i).kind = kind)
    (hne : kind ≠ .endOfText) : ∃ t ts, scanner.lexemesFrom i = t :: ts ∧ t.kind = kind := by
  cases h : scanner.lexemesFrom i with
  | nil =>
    rw [tokenAt_of_nil h] at hk
    exact absurd hk.symm hne
  | cons t ts =>
    rw [tokenAt_of_cons h] at hk
    exact ⟨t, ts, rfl, hk⟩

theorem head?_kind_ne {kind : TokenKind} (hk : (scanner.tokenAt i).kind ≠ kind) :
    ∀ t ∈ (scanner.lexemesFrom i).head?, t.kind ≠ kind := by
  intro t ht
  obtain ⟨ts, hts⟩ := List.head?_eq_some_iff.1 ht
  rwa [tokenAt_of_cons hts] at hk

theorem lexemesFrom_suffix (scanner : Scanner) (i : Nat) :
    scanner.lexemesFrom i <:+ scanner.cursor.lexemes :=
  List.drop_suffix i _

/-- A lexeme is not the end of the text. -/
theorem kind_ne_endOfText_of_cons (h : scanner.lexemesFrom i = t :: ts) : t.kind ≠ .endOfText := by
  apply Cursor.kind_ne_endOfText_of_mem_lexemes
  apply (scanner.lexemesFrom_suffix i).subset
  rw [h]
  exact List.mem_cons_self

/-- What is between two neighbours in the row of all tokens is there and is blank, and a line begins with
the second exactly if it has a line feed. -/
theorem exists_gap (hin : scanner.IsIn) (hi : 0 < i ∨ scanner.cursor.offset = 0) :
    ∃ gap, Span.slice? ⟨scanner.stopBefore i, (scanner.tokenAt i).span.start⟩ scanner.source =
        some gap ∧ (∀ c ∈ gap.toList, isBlank c) ∧
      ∀ t ∈ (scanner.lexemesFrom i).head?, t.startsLine = gap.toList.contains '\n' := by
  have hskip : (scanner.cursor.skip i).IsIn scanner.source := Cursor.IsIn.skip hin i
  rw [← offset_skip hi, ← next_skip, lexemesFrom_eq_skip]
  cases hc : (scanner.cursor.skip i).next? with
  | none =>
    obtain ⟨hblank, hslice⟩ := hskip.slice?_rest hc
    rw [Cursor.next_of_next?_eq_none hc, Cursor.lexemes_of_next?_eq_none hc]
    refine ⟨_, hslice, by rwa [String.toList_ofList], ?_⟩
    intro t ht
    cases ht
  | some r =>
    obtain ⟨gap, hblank, hrest, hline, hstart, -⟩ := Cursor.exists_gap_of_next? hc
    rw [List.append_assoc] at hrest
    rw [Cursor.next_of_next?_eq_some hc, Cursor.lexemes_of_next?_eq_some hc]
    refine ⟨_, (hskip.slice? hrest rfl hstart).1, by rwa [String.toList_ofList], ?_⟩
    intro t ht
    cases ht
    rw [String.toList_ofList, hline]

end Scanner

/-! ## Moving a window -/

namespace Window

variable {w : Window} {scanner : Scanner} {i : Nat}

theorem shows_ofScanner (scanner : Scanner) : (ofScanner scanner).Shows scanner 0 :=
  ⟨rfl, scanner.next_skip 0, scanner.next_skip 1, rfl⟩

theorem Shows.advance (h : w.Shows scanner i) : w.advance.Shows scanner (i + 1) := by
  obtain ⟨hscanner, hcurrent, hahead, -⟩ := h
  refine ⟨?_, hahead, ?_, ?_⟩
  · show w.scanner.next.2 = _
    rw [hscanner, Cursor.skip_succ _ (i + 2)]
    rfl
  · show w.scanner.next.1 = _
    rw [hscanner, ← Scanner.next_skip]
    rfl
  · show w.current.span.stop = _
    rw [hcurrent]
    rfl

theorem reach_succ (scanner : Scanner) (i : Nat) :
    reach scanner (i + 1) = (reach scanner i).advance :=
  Function.iterate_succ_apply' advance i _

/-- **However often it has been moved, a window shows two neighbours** in the row of all tokens that were
left. -/
theorem shows_reach (scanner : Scanner) (i : Nat) : (reach scanner i).Shows scanner i := by
  induction i with
  | zero => exact shows_ofScanner scanner
  | succ i ih =>
    rw [reach_succ]
    exact ih.advance

/-! ## The gap before the current token -/

/-- What is before the current token is the gap of the text that is there. -/
theorem Shows.gap?_eq (h : w.Shows scanner i) : w.gap? =
    Span.slice? ⟨scanner.stopBefore i, (scanner.tokenAt i).span.start⟩ scanner.source := by
  rw [gap?, h.behind_eq, h.current_eq, h.scanner_eq]

/-- What is before the current token is there and is blank, however far the window has been moved. -/
theorem Shows.exists_gap (h : w.Shows scanner i) (hin : scanner.IsIn)
    (hi : 0 < i ∨ scanner.cursor.offset = 0) :
    ∃ gap, w.gap? = some gap ∧ ∀ c ∈ gap.toList, isBlank c := by
  obtain ⟨gap, hslice, hblank, -⟩ := Scanner.exists_gap hin hi
  exact ⟨gap, h.gap?_eq.trans hslice, hblank⟩

example : (reach (.ofString "a\n b") 1).gap? = some "\n " := by decide

/-- Of a scanner that has been moved on, the first window has all that was passed before its token. -/
example : (ofScanner (Scanner.take 1 (.ofString "a;\nb")).2).gap? = some "a" := by decide

theorem startsLine_iff {gap : String} (hgap : w.gap? = some gap) :
    w.startsLine ↔ '\n' ∈ gap.toList := by
  rw [startsLine, hgap, Option.any_some, List.contains_iff_mem]

/-- To look for a line feed in the gap is to ask whether the current token is the first on its line. -/
theorem Shows.startsLine_eq (h : w.Shows scanner i) (hin : scanner.IsIn)
    (hi : 0 < i ∨ scanner.cursor.offset = 0) {t : Lexeme} {ts : List Lexeme}
    (hts : scanner.lexemesFrom i = t :: ts) : w.startsLine = t.startsLine := by
  obtain ⟨gap, hslice, -, hline⟩ := Scanner.exists_gap hin hi
  rw [startsLine, h.gap?_eq, hslice, hline t (by rw [hts]; rfl)]
  rfl

end Window

end MonkeyLang
