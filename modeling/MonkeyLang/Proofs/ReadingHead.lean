import MonkeyLang.Proofs.Interleaving
import MonkeyLang.Proofs.Remainder
import MonkeyLang.Token.ReadingHead

/-!
# A scan by byte offsets never fails

A `Cursor` has the characters that are left, so nothing that it does can fail.  A `ReadingHead` has offsets
instead, and a step that asks for a slice that is not there fails, as does a run that does not end.

This file shows that neither ever happens (`scan_is_sound`).  The head over a text is at each moment the
one that stands at the place of a cursor (`ReadingHead.ofCursor`), and each of its steps is told by what
it does to that place: `advance_ofCursor` for one character, `run_ofCursor` for a run,
`next_ofCursor` for a token.
-/

namespace MonkeyLang

open Character

/-! ## Heads and places -/

namespace ReadingHead

/-- The head over a text that stands at a place of it. -/
def ofCursor (source : String) (c : Cursor) : ReadingHead :=
  ⟨source, c.offset, c.offset + c.rest.head?.elim 0 Char.utf8Size, c.rest.head?⟩

end ReadingHead

namespace Cursor

/-- The place behind one character, or the same place if the text is at an end. -/
def behindOne (c : Cursor) : Cursor :=
  match c.rest with
  | [] => c
  | d :: ds => ⟨c.offset + d.utf8Size, ds⟩

/-- The place behind a run of characters. -/
def behindRun (p : Char → Bool) (c : Cursor) : Cursor :=
  ⟨c.offset + byteLength (c.rest.takeWhile p), c.rest.dropWhile p⟩

variable {source : String} {c : Cursor}

/-- A place further on in a text is one of the text. -/
theorem IsIn.append (h : c.IsIn source) {ms bs : List Char} (hrest : c.rest = ms ++ bs) :
    IsIn ⟨c.offset + byteLength ms, bs⟩ source :=
  (h.slice? (s := ⟨c.offset, c.offset + byteLength ms⟩) hrest rfl rfl).2

theorem IsIn.behindOne (h : c.IsIn source) : c.behindOne.IsIn source := by
  unfold Cursor.behindOne
  split
  · exact h
  · rename_i d ds hrest
    have hsplit : c.rest = [d] ++ ds := hrest
    exact h.append hsplit

theorem IsIn.behindRun (p : Char → Bool) (h : c.IsIn source) : (c.behindRun p).IsIn source :=
  h.append List.takeWhile_append_dropWhile.symm

/-- The offset behind the character at a place, from there to the end of the text. -/
theorem IsIn.slice?_behindOne (h : c.IsIn source) :
    Span.slice? ⟨c.behindOne.offset, source.utf8ByteSize⟩ source =
      some (String.ofList c.behindOne.rest) := by
  have hstop : source.utf8ByteSize = c.behindOne.offset + byteLength c.behindOne.rest :=
    h.behindOne.stop_eq.symm
  exact (h.behindOne.slice? (List.append_nil _).symm rfl hstop).1

end Cursor

namespace ReadingHead

variable {source : String} {c : Cursor}

/-! ## One character -/

theorem ofCursor_behind (source : String) (c : Cursor) :
    (ofCursor source c).behind = c.behindOne.offset := by
  unfold ofCursor Cursor.behindOne
  cases c.rest <;> rfl

theorem peek_ofCursor (h : c.IsIn source) :
    (ofCursor source c).peek = some c.behindOne.rest.head? := by
  have hslice : Span.slice? ⟨(ofCursor source c).behind, (ofCursor source c).source.utf8ByteSize⟩
      (ofCursor source c).source = some (String.ofList c.behindOne.rest) := by
    rw [ofCursor_behind]
    exact h.slice?_behindOne
  rw [peek, hslice]
  exact congrArg (fun l => some l.head?) String.toList_ofList

theorem advance_ofCursor (h : c.IsIn source) :
    (ofCursor source c).advance = some (ofCursor source c.behindOne) := by
  rw [advance, peek_ofCursor h, ofCursor_behind]
  rfl

theorem start_eq (source : String) : start source = some (ofCursor source (.ofString source)) := by
  have hslice : Span.slice? ⟨0, source.utf8ByteSize⟩ source = some source := by
    refine Span.slice?_eq_some_iff.2 ⟨"", "", ?_, rfl, ?_⟩
    · rw [String.empty_append, String.append_empty]
    · rw [String.empty_append]
  rw [start, advance, peek, hslice]
  rfl

/-! ## Runs of characters -/

/-- The turns are enough if there is one for each character that is left and one more. -/
theorem advanceWhile_ofCursor (p : Char → Bool) {n : Nat} (h : c.IsIn source)
    (hn : c.rest.length < n) :
    (ofCursor source c).advanceWhile p n = some (ofCursor source (c.behindRun p)) := by
  induction n generalizing c with
  | zero => exact absurd hn (Nat.not_lt_zero _)
  | succ n ih =>
    obtain ⟨offset, rest⟩ := c
    cases rest with
    | nil => rfl
    | cons d ds =>
      rw [advanceWhile]
      by_cases hd : p d
      · have hrest := ih h.behindOne (Nat.lt_of_succ_lt_succ hn)
        have hrun : (Cursor.mk offset (d :: ds)).behindRun p =
            (Cursor.mk offset (d :: ds)).behindOne.behindRun p := by
          simp only [Cursor.behindRun, Cursor.behindOne, List.takeWhile_cons_of_pos hd,
            List.dropWhile_cons_of_pos hd, byteLength_cons, Nat.add_assoc]
        rw [if_pos (by exact hd), advance_ofCursor h, hrun]
        exact hrest
      · have hrun : (Cursor.mk offset (d :: ds)).behindRun p = ⟨offset, d :: ds⟩ := by
          simp only [Cursor.behindRun, List.takeWhile_cons_of_neg hd,
            List.dropWhile_cons_of_neg hd, byteLength_nil, Nat.add_zero]
        rw [if_neg (by exact hd), hrun]

theorem length_rest_lt (h : c.IsIn source) : c.rest.length < source.utf8ByteSize + 1 := by
  have hbytes := length_le_byteLength c.rest
  have hstop : c.offset + byteLength c.rest = source.utf8ByteSize := h.stop_eq
  omega

theorem run_ofCursor (p : Char → Bool) (h : c.IsIn source) :
    (ofCursor source c).run p = some (ofCursor source (c.behindRun p)) :=
  advanceWhile_ofCursor p h (length_rest_lt h)

/-! ## Texts and tokens -/

/-- From a place up to a head further on, the text is that of the characters between. -/
theorem textFrom_ofCursor (h : c.IsIn source) {ms bs : List Char} (hrest : c.rest = ms ++ bs) :
    (ofCursor source ⟨c.offset + byteLength ms, bs⟩).textFrom c.offset = some (String.ofList ms) :=
  (h.slice? (s := ⟨c.offset, c.offset + byteLength ms⟩) hrest rfl rfl).1

theorem tokenFrom_ofCursor (h : c.IsIn source) {ms bs : List Char} (hrest : c.rest = ms ++ bs)
    (kind : TokenKind) :
    (ofCursor source ⟨c.offset + byteLength ms, bs⟩).tokenFrom kind c.offset =
      some ⟨kind, String.ofList ms, ⟨c.offset, c.offset + byteLength ms⟩⟩ := by
  rw [tokenFrom, textFrom_ofCursor h hrest]
  rfl

/-! ## The token under the head -/

/-- The token that is cut off at a place, and the head behind it. -/
def cutAt (source : String) (o : Nat) (m : Munch) : Token × ReadingHead :=
  (⟨m.kind, String.ofList m.literal, ⟨o, o + byteLength m.literal⟩⟩,
    ofCursor source ⟨o + byteLength m.literal, m.rest⟩)

variable {d : Char} {ds : List Char}

theorem behindRun_cons {p : Char → Bool} (hrest : c.rest = d :: ds) (hd : p d) :
    c.behindRun p =
      ⟨c.offset + byteLength (d :: ds.takeWhile p), ds.dropWhile p⟩ := by
  rw [Cursor.behindRun, hrest, List.takeWhile_cons_of_pos hd, List.dropWhile_cons_of_pos hd]

theorem word_ofCursor (h : c.IsIn source) (hrest : c.rest = d :: ds) (hd : isLetter d) :
    (ofCursor source c).word c.offset = some (cutAt source c.offset (Munch.word d ds)) := by
  have hcut : c.rest = (d :: ds.takeWhile isLetter) ++ ds.dropWhile isLetter := by
    rw [hrest, List.cons_append, List.takeWhile_append_dropWhile]
  rw [word, run_ofCursor _ h, behindRun_cons hrest hd]
  simp only [Option.bind_eq_bind, Option.bind_some, textFrom_ofCursor h hcut,
    tokenFrom_ofCursor h hcut]
  rfl

theorem numeral_ofCursor (h : c.IsIn source) (hrest : c.rest = d :: ds) (hd : isDigit d) :
    (ofCursor source c).numeral c.offset = some (cutAt source c.offset (Munch.numeral d ds)) := by
  have hcut : c.rest = (d :: ds.takeWhile isDigit) ++ ds.dropWhile isDigit := by
    rw [hrest, List.cons_append, List.takeWhile_append_dropWhile]
  rw [numeral, run_ofCursor _ h, behindRun_cons hrest hd]
  simp only [Option.bind_eq_bind, Option.bind_some, tokenFrom_ofCursor h hcut]
  rfl

/-- A symbol of one character, with the head over that character. -/
theorem symbol_ofCursor (h : c.IsIn source) (hrest : c.rest = d :: ds) (kind : TokenKind) :
    (ofCursor source c).symbol kind c.offset = some (cutAt source c.offset ⟨kind, [d], ds⟩) := by
  have hone : c.behindOne = ⟨c.offset + byteLength [d], ds⟩ := by
    rw [Cursor.behindOne, hrest]
    rfl
  have hcut : c.rest = [d] ++ ds := hrest
  rw [symbol, advance_ofCursor h, hone]
  simp only [Option.bind_eq_bind, Option.bind_some, tokenFrom_ofCursor h hcut]
  rfl

/-- A symbol of two characters, with the head over the second. -/
theorem symbol_ofCursor_behindOne {e : Char} {es : List Char} (h : c.IsIn source)
    (hrest : c.rest = d :: e :: es) (kind : TokenKind) :
    (ofCursor source c.behindOne).symbol kind c.offset =
      some (cutAt source c.offset ⟨kind, [d, e], es⟩) := by
  have htwo : c.behindOne.behindOne = ⟨c.offset + byteLength [d, e], es⟩ := by
    simp only [Cursor.behindOne, hrest, byteLength_cons, byteLength_nil, Nat.add_zero, Nat.add_assoc]
  have hcut : c.rest = [d, e] ++ es := hrest
  rw [symbol, advance_ofCursor h.behindOne, htwo]
  simp only [Option.bind_eq_bind, Option.bind_some, tokenFrom_ofCursor h hcut]
  rfl

theorem either_ofCursor (h : c.IsIn source) (simple compound : Operator) :
    (ofCursor source c).either simple compound =
      if c.behindOne.rest.head? = some '=' then
        some (.operator compound, ofCursor source c.behindOne)
      else some (.operator simple, ofCursor source c) := by
  rw [either, peek_ofCursor h]
  by_cases hpair : c.behindOne.rest.head? = some '='
  · rw [if_pos hpair, Option.bind_eq_bind, Option.bind_some, if_pos hpair, advance_ofCursor h]
    rfl
  · rw [if_neg hpair, Option.bind_eq_bind, Option.bind_some, if_neg hpair]
    rfl

/-- The token that begins under the head is the one that is cut off there. -/
theorem munch_ofCursor (h : c.IsIn source) (hrest : c.rest = d :: ds) :
    (ofCursor source c).munch d = some (cutAt source c.offset (Munch.ofCons d ds)) := by
  have hposition : (ofCursor source c).position = c.offset := rfl
  have hnext : c.behindOne.rest = ds := by rw [Cursor.behindOne, hrest]
  rw [munch, hposition]
  cases ho : Onset.ofChar d with
  | word =>
    rw [Munch.ofCons_of_word _ ho]
    exact word_ofCursor h hrest (Onset.isLetter_of_ofChar_eq_word ho)
  | numeral =>
    rw [Munch.ofCons_of_numeral _ ho]
    exact numeral_ofCursor h hrest (Onset.isDigit_of_ofChar_eq_numeral ho)
  | pair simple compound =>
    rw [Munch.ofCons_of_pair _ ho]
    simp only [either_ofCursor h, hnext]
    by_cases hpair : ds.head? = some '='
    · obtain ⟨es, rfl⟩ := List.head?_eq_some_iff.1 hpair
      rw [if_pos hpair]
      exact symbol_ofCursor_behindOne h hrest _
    · have hne : ∀ e ∈ ds.head?, e ≠ '=' := by
        rintro e he rfl
        exact hpair he
      rw [if_neg hpair, Munch.pair_of_ne hne]
      exact symbol_ofCursor h hrest _
  | single kind =>
    rw [Munch.ofCons_of_single _ ho]
    exact symbol_ofCursor h hrest kind

/-- **The next token under the head** is the next at its place, and the head is then over the place
behind it.  At the end of the text the head stands behind the last character. -/
theorem next_ofCursor (h : c.IsIn source) :
    (ofCursor source c).next = some (c.next.1, ofCursor source c.next.2) := by
  rw [next, run_ofCursor isBlank h, Option.bind_eq_bind, Option.bind_some]
  cases hd : c.rest.dropWhile isBlank with
  | nil =>
    have hnext : c.next = (.endOfText c.stop, c.atStop) := by
      rw [Cursor.next, Cursor.next?_eq_none_iff.2 hd]
    have hstop : c.behindRun isBlank = c.atStop := by
      have hsize := byteLength_takeWhile_add_dropWhile isBlank c.rest
      rw [hd, byteLength_nil, Nat.add_zero] at hsize
      rw [Cursor.behindRun, hd, hsize]
      rfl
    rw [hnext, hstop]
    rfl
  | cons d ds =>
    have hchar : (ofCursor source (c.behindRun isBlank)).char? = some d := congrArg List.head? hd
    rw [hchar, Cursor.next, Cursor.next?_of_dropWhile hd]
    exact munch_ofCursor (h.behindRun isBlank) hd

end ReadingHead

/-! ## Any number of tokens -/

namespace Cursor

variable {source : String} {c : Cursor}

theorem IsIn.next (h : c.IsIn source) : c.next.2.IsIn source := by
  obtain ⟨l, hrest, hoffset, -⟩ := c.exists_next
  have hin := h.append hrest
  rwa [← hoffset] at hin

theorem IsIn.skip (h : c.IsIn source) (n : Nat) : (c.skip n).IsIn source := by
  induction n generalizing c with
  | zero => exact h
  | succ n ih => exact ih h.next

theorem next_of_next?_eq_none (hc : c.next? = none) : c.next = (.endOfText c.stop, c.atStop) := by
  rw [Cursor.next, hc]

theorem next_of_next?_eq_some {t : Lexeme} {c' : Cursor} (hc : c.next? = some (t, c')) :
    c.next = (t.token, c') := by
  rw [Cursor.next, hc]

/-- The end of the text comes again and again. -/
theorem next_atStop (c : Cursor) : c.atStop.next = (.endOfText c.stop, c.atStop) :=
  next_of_next?_eq_none rfl

/-- The token for the end of the text comes exactly if all that is left is blank. -/
theorem kind_next_eq_endOfText_iff : c.next.1.kind = .endOfText ↔ c.next? = none := by
  cases hc : c.next? with
  | none =>
    rw [next_of_next?_eq_none hc]
    exact iff_of_true rfl rfl
  | some r =>
    obtain ⟨t, c'⟩ := r
    have hmem : t ∈ c.lexemes := by
      rw [lexemes_of_next?_eq_some hc]
      exact List.mem_cons_self
    rw [next_of_next?_eq_some hc]
    exact iff_of_false (kind_ne_endOfText_of_mem_lexemes hmem) (by simp)

/-- The tokens taken are the first of all, and the tokens from there on are the others, as long as the
end of the text is not behind. -/
theorem tokens_split {n : Nat} (hn : n < c.tokens.length) :
    c.taken n = c.tokens.take n ∧ (c.skip n).tokens = c.tokens.drop n := by
  induction n generalizing c with
  | zero => exact ⟨rfl, rfl⟩
  | succ n ih =>
    cases hc : c.next? with
    | none =>
      rw [tokens_of_next?_eq_none hc, List.length_singleton] at hn
      omega
    | some r =>
      obtain ⟨t, c'⟩ := r
      rw [tokens_of_next?_eq_some hc] at hn ⊢
      obtain ⟨htaken, hskip⟩ := ih (Nat.lt_of_succ_lt_succ hn)
      rw [taken, skip, next_of_next?_eq_some hc, htaken, hskip]
      exact ⟨rfl, rfl⟩

end Cursor

namespace ReadingHead

variable {source : String} {c : Cursor}

theorem take_ofCursor (h : c.IsIn source) (n : Nat) :
    (ofCursor source c).take n = some (c.taken n, ofCursor source (c.skip n)) := by
  induction n generalizing c with
  | zero => rfl
  | succ n ih =>
    rw [take, next_ofCursor h]
    simp only [Option.bind_eq_bind, Option.bind_some, ih h.next, Option.pure_def, Cursor.taken,
      Cursor.skip]

/-- All tokens are taken if there are turns for as many as the characters that are left, and one for the
end of the text. -/
theorem takeAll_ofCursor {n : Nat} (h : c.IsIn source) (hn : c.rest.length < n) :
    (ofCursor source c).takeAll n = some c.tokens := by
  induction n generalizing c with
  | zero => exact absurd hn (Nat.not_lt_zero _)
  | succ n ih =>
    rw [takeAll, next_ofCursor h]
    cases hc : c.next? with
    | none =>
      rw [Cursor.next_of_next?_eq_none hc, Cursor.tokens_of_next?_eq_none hc]
      rfl
    | some r =>
      obtain ⟨t, c'⟩ := r
      have hnext := Cursor.next_of_next?_eq_some hc
      have hkind : t.token.isEndOfText = false := by
        have hne := mt Cursor.kind_next_eq_endOfText_iff.1 (by rw [hc]; simp)
        rw [hnext] at hne
        exact beq_false_of_ne hne
      have hin : c'.IsIn source := by
        have hin := h.next
        rwa [hnext] at hin
      have hlt := Cursor.next?_rest_length_lt hc
      rw [hnext, Cursor.tokens_of_next?_eq_some hc]
      simp only [Option.bind_eq_bind, Option.bind_some, hkind, Bool.false_eq_true, if_false,
        ih hin (by omega), Option.pure_def]

theorem tokens_ofCursor (h : c.IsIn source) : (ofCursor source c).tokens = some c.tokens :=
  takeAll_ofCursor h (length_rest_lt h)

/-! ## What a scan keeps -/

/-- The head stands between the bounds of its text, at a place where the text can be cut, over the
character that is there; and the place behind that character is one of the text too. -/
structure Sound (h : ReadingHead) : Prop where
  position_le_behind : h.position ≤ h.behind
  behind_le_size : h.behind ≤ h.source.utf8ByteSize
  stands : ∃ front rest, h.source = front ++ rest ∧ front.utf8ByteSize = h.position ∧
    rest.toList.head? = h.char?
  char?_eq_none_iff : h.char? = none ↔ h.position = h.source.utf8ByteSize
  behind_eq : h.behind = h.position + h.char?.elim 0 Char.utf8Size
  cut_behind : ∃ front rest, h.source = front ++ rest ∧ front.utf8ByteSize = h.behind

/-- A character that is no blank is left, if only the one under the head. -/
def HasMore (h : ReadingHead) : Prop :=
  ∃ rest, Span.slice? ⟨h.position, h.source.utf8ByteSize⟩ h.source = some rest ∧
    ∃ d ∈ rest.toList, isBlank d = false

theorem sound_ofCursor (h : c.IsIn source) : (ofCursor source c).Sound := by
  have hcut {c : Cursor} (h : c.IsIn source) : ∃ front rest : String,
      source = front ++ rest ∧ front.utf8ByteSize = c.offset ∧ rest.toList = c.rest := by
    obtain ⟨as, hsource, hoffset⟩ := h
    refine ⟨String.ofList as, String.ofList c.rest, ?_, ?_, String.toList_ofList⟩
    · rw [← String.ofList_append, ← hsource, String.ofList_toList]
    · rw [byteLength_ofList, hoffset]
  have hsize : c.offset + byteLength c.rest = source.utf8ByteSize := h.stop_eq
  have hsize' : c.behindOne.offset + byteLength c.behindOne.rest = source.utf8ByteSize :=
    h.behindOne.stop_eq
  obtain ⟨front, rest, hsource, hposition, hrest⟩ := hcut h
  obtain ⟨front', rest', hsource', hbehind, -⟩ := hcut h.behindOne
  refine ⟨Nat.le_add_right _ _, ?_, ⟨front, rest, hsource, hposition, by rw [hrest]; rfl⟩, ?_, rfl,
    ⟨front', rest', hsource', by rw [ofCursor_behind, hbehind]⟩⟩
  · rw [ofCursor_behind]
    exact Nat.le.intro hsize'
  · show c.rest.head? = none ↔ c.offset = source.utf8ByteSize
    rw [List.head?_eq_none_iff]
    constructor
    · intro hnil
      rw [hnil, byteLength_nil] at hsize
      exact hsize
    · intro hend
      by_contra hne
      have hpos := byteLength_pos hne
      omega

theorem hasMore_ofCursor_iff (h : c.IsIn source) :
    (ofCursor source c).HasMore ↔ c.next.1.kind ≠ .endOfText := by
  have hslice : Span.slice? ⟨c.offset, source.utf8ByteSize⟩ source = some (String.ofList c.rest) :=
    (h.slice? (List.append_nil _).symm rfl h.stop_eq.symm).1
  rw [Ne, Cursor.kind_next_eq_endOfText_iff, Cursor.next?_eq_none_iff, List.dropWhile_eq_nil_iff]
  constructor
  · rintro ⟨rest, hrest, d, hd, hblank⟩ hall
    obtain rfl := Option.some.inj (hslice.symm.trans hrest)
    rw [String.toList_ofList] at hd
    rw [hall d hd] at hblank
    cases hblank
  · intro hall
    obtain ⟨d, hd⟩ := not_forall.1 hall
    obtain ⟨hmem, hblank⟩ := Classical.not_imp.1 hd
    refine ⟨_, hslice, d, ?_, Bool.not_eq_true _ ▸ hblank⟩
    rw [String.toList_ofList]
    exact hmem

theorem position_lt_of_hasMore (h : c.IsIn source) (hmore : (ofCursor source c).HasMore) :
    c.offset < c.next.2.offset := by
  cases hc : c.next? with
  | none => exact absurd (Cursor.kind_next_eq_endOfText_iff.2 hc) ((hasMore_ofCursor_iff h).1 hmore)
  | some r =>
    obtain ⟨t, c'⟩ := r
    obtain ⟨hle, hlt, hstop⟩ := Cursor.span_of_next? hc
    rw [Cursor.next_of_next?_eq_some hc, ← hstop]
    exact Nat.lt_of_le_of_lt hle hlt

/-- Behind the end of a text, the head does not move, and the end comes again. -/
theorem take_atStop (h : c.atStop.IsIn source) (n : Nat) :
    (ofCursor source c.atStop).take n =
      some (List.replicate n (.endOfText c.stop), ofCursor source c.atStop) := by
  induction n with
  | zero => rfl
  | succ n ih =>
    rw [take, next_ofCursor h, Cursor.next_atStop]
    simp only [Option.bind_eq_bind, Option.bind_some, ih, Option.pure_def, List.replicate_succ]

end ReadingHead

/-- **A scan by offsets never leaves its text.**  After any number of tokens the head stands between the
bounds of the text, over the character at its offset, with the offset behind that character, and the text
can be cut at both.  A further token never fails: as long as a character that is no blank is left, it
takes at least one byte and is not the end; and once it is the end, the head stays and the end comes again
and again.  The tokens taken and all those that are left are the tokens of the text, cut in two. -/
theorem scan_is_sound (source : String) (k : Nat) :
    let start := Cursor.ofString source
    ∃ h t h', (ReadingHead.start source).bind (ReadingHead.take k) = some (start.taken k, h) ∧
      h = .ofCursor source (start.skip k) ∧ h.Sound ∧
      h.next = some (t, h') ∧
      (h.HasMore → h.position < h'.position ∧ t.kind ≠ .endOfText) ∧
      (t.kind = .endOfText → ∀ n, h'.take n = some (List.replicate n t, h')) ∧
      (k < (tokens source).length →
        start.taken k = (tokens source).take k ∧ h.tokens = some ((tokens source).drop k)) := by
  intro start
  have hin : (start.skip k).IsIn source := (Cursor.isIn_ofString source).skip k
  refine ⟨.ofCursor source (start.skip k), (start.skip k).next.1,
    .ofCursor source (start.skip k).next.2, ?_, rfl, ReadingHead.sound_ofCursor hin,
    ReadingHead.next_ofCursor hin, ?_, ?_, ?_⟩
  · rw [ReadingHead.start_eq]
    exact ReadingHead.take_ofCursor (Cursor.isIn_ofString source) k
  · intro hmore
    exact ⟨ReadingHead.position_lt_of_hasMore hin hmore,
      (ReadingHead.hasMore_ofCursor_iff hin).1 hmore⟩
  · intro hend n
    have hnext := Cursor.next_of_next?_eq_none (Cursor.kind_next_eq_endOfText_iff.1 hend)
    have hstop := hin.next
    rw [hnext] at hstop ⊢
    exact ReadingHead.take_atStop hstop n
  · intro hk
    obtain ⟨htaken, hskip⟩ := Cursor.tokens_split hk
    refine ⟨htaken, ?_⟩
    rw [ReadingHead.tokens_ofCursor hin, hskip]
    rfl

/-- A head that is put inside the two bytes of a character finds no text to go on with. -/
example : (ReadingHead.mk "é=" 0 1 (some 'é')).advance = none := by decide +kernel

end MonkeyLang
