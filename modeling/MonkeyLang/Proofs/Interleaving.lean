import MonkeyLang.Proofs.Lexicon
import MonkeyLang.Text.Slice

/-!
# The text is its tokens and its gaps

A scan loses nothing of a text.  The tokens lie one behind the other and each has the text under its
span; what is between two of them, in front of the first or behind the last, is blank.  So the gaps
and the tokens by turns are the text again (`tokens_interleave`).

All of it is carried along the scan by one invariant: a place that is reached stands between two
characters of the text, with the offset of all that is before it (`Cursor.IsIn`).
-/

namespace MonkeyLang

open Character

/-- The spans in front of tokens: from the offset `n` to the first token, and from the end of each
token to the start of the next. -/
def gapsFrom (n : Nat) : List Token → List Span
  | [] => []
  | t :: ts => ⟨n, t.span.start⟩ :: gapsFrom t.span.stop ts

/-! ## Places in a text -/

namespace Cursor

/-- The place is one of the text: what is left stands behind some characters of the text, and these
take as many bytes as the offset says. -/
def IsIn (c : Cursor) (source : String) : Prop :=
  ∃ as, source.toList = as ++ c.rest ∧ byteLength as = c.offset

variable {source : String} {c c' : Cursor} {t : Lexeme}

theorem isIn_ofString (source : String) : (ofString source).IsIn source := ⟨[], rfl, rfl⟩

theorem IsIn.stop_eq (h : c.IsIn source) : c.stop = source.utf8ByteSize := by
  obtain ⟨as, hsource, hoffset⟩ := h
  rw [← byteLength_toList, hsource, byteLength_append, hoffset, stop]

/-- The text from a place up to another, further on. -/
theorem IsIn.slice? (h : c.IsIn source) {s : Span} {ms bs : List Char} (hrest : c.rest = ms ++ bs)
    (hstart : s.start = c.offset) (hstop : s.stop = c.offset + byteLength ms) :
    s.slice? source = some (String.ofList ms) ∧ IsIn ⟨s.stop, bs⟩ source := by
  obtain ⟨as, hsource, hoffset⟩ := h
  rw [hrest] at hsource
  constructor
  · refine Span.slice?_eq_some_iff.2 ⟨String.ofList as, String.ofList bs, ?_, ?_, ?_⟩
    · rw [← String.ofList_append, ← String.ofList_append, List.append_assoc, ← hsource,
        String.ofList_toList]
    · rw [byteLength_ofList, hoffset, hstart]
    · rw [← String.ofList_append, byteLength_ofList, byteLength_append, hoffset, hstop]
  · refine ⟨as ++ ms, ?_, ?_⟩
    · rw [List.append_assoc, hsource]
    · rw [byteLength_append, hoffset, hstop]

/-- A step over a token: the gap in front of it is blank, the token has the text under its span, and the
place behind it is one of the text. -/
theorem IsIn.step (h : c.IsIn source) (hc : c.next? = some (t, c')) :
    ∃ w, (∀ x ∈ w, isBlank x) ∧ c.rest = w ++ t.token.literal.toList ++ c'.rest ∧
      Span.slice? ⟨c.offset, t.token.span.start⟩ source = some (String.ofList w) ∧
      t.token.span.slice? source = some t.token.literal ∧
      t.token.span.stop = c'.offset ∧ c'.IsIn source := by
  obtain ⟨w, hw, hrest, -, hstart, hstop, hoffset⟩ := exists_gap_of_next? hc
  have hrest' : c.rest = w ++ (t.token.literal.toList ++ c'.rest) := by
    rw [hrest, List.append_assoc]
  obtain ⟨hgap, hin⟩ := h.slice? (s := ⟨c.offset, t.token.span.start⟩) hrest' rfl hstart
  obtain ⟨htoken, hin'⟩ := hin.slice? (s := t.token.span) rfl rfl hstop
  rw [String.ofList_toList] at htoken
  rw [← hoffset] at hin'
  exact ⟨w, hw, hrest, hgap, htoken, hoffset.symm, hin'⟩

/-! ## All tokens from a place on -/

/-- At the end of a text, all that is left is blank. -/
theorem IsIn.slice?_rest (h : c.IsIn source) (hc : c.next? = none) :
    (∀ x ∈ c.rest, isBlank x) ∧
      Span.slice? ⟨c.offset, c.stop⟩ source = some (String.ofList c.rest) := by
  have hall := List.dropWhile_eq_nil_iff.1 (next?_eq_none_iff.1 hc)
  have hrest : c.rest = c.rest ++ [] := (List.append_nil c.rest).symm
  exact ⟨hall, (h.slice? hrest rfl rfl).1⟩

theorem tokens_of_next?_eq_none (hc : c.next? = none) : c.tokens = [.endOfText c.stop] := by
  rw [tokens, lexemes_of_next?_eq_none hc]
  rfl

theorem tokens_of_next?_eq_some (hc : c.next? = some (t, c')) :
    c.tokens = t.token :: c'.tokens := by
  rw [tokens, tokens, lexemes_of_next?_eq_some hc, next?_stop hc]
  rfl

/-- Each token has the text under its span, the token for the end among them. -/
theorem IsIn.slice?_of_mem_tokens (h : c.IsIn source) :
    ∀ t ∈ c.tokens, t.span.slice? source = some t.literal := by
  fun_induction lexemes c with
  | case1 c hc =>
    rw [tokens_of_next?_eq_none hc, h.stop_eq]
    intro t ht
    obtain rfl := List.mem_singleton.1 ht
    have htext : source = source ++ "" ++ "" := by rw [String.append_empty, String.append_empty]
    have hsize : (source ++ "").utf8ByteSize = source.utf8ByteSize := by rw [String.append_empty]
    exact Span.slice?_eq_some_iff.2 ⟨source, "", htext, rfl, hsize⟩
  | case2 c t c' hc ih =>
    obtain ⟨-, -, -, -, htoken, -, hin⟩ := h.step hc
    rw [tokens_of_next?_eq_some hc]
    exact List.forall_mem_cons.2 ⟨htoken, ih hin⟩

/-- The gaps from a place on are blank, and with the tokens they are all that is left of the text. -/
theorem IsIn.exists_gaps (h : c.IsIn source) :
    ∃ gs : List String,
      (gapsFrom c.offset c.tokens).map (fun s => s.slice? source) = gs.map some ∧
      (∀ g ∈ gs, ∀ x ∈ g.toList, isBlank x) ∧
      String.ofList c.rest = String.join (List.zipWith (· ++ ·) gs (c.tokens.map (·.literal))) := by
  fun_induction lexemes c with
  | case1 c hc =>
    obtain ⟨hblank, hslice⟩ := h.slice?_rest hc
    rw [tokens_of_next?_eq_none hc]
    refine ⟨[String.ofList c.rest], ?_, ?_, ?_⟩
    · exact congrArg (fun o => [o]) hslice
    · intro g hg
      rw [List.mem_singleton.1 hg, String.toList_ofList]
      exact hblank
    · simp [Token.endOfText]
  | case2 c t c' hc ih =>
    obtain ⟨w, hw, hrest, hgap, -, hstop, hin⟩ := h.step hc
    obtain ⟨gs, hslices, hblank, hjoin⟩ := ih hin
    rw [tokens_of_next?_eq_some hc]
    refine ⟨String.ofList w :: gs, ?_, ?_, ?_⟩
    · rw [gapsFrom, hstop, List.map_cons, List.map_cons, hgap, hslices]
    · refine List.forall_mem_cons.2 ⟨?_, hblank⟩
      rw [String.toList_ofList]
      exact hw
    · rw [List.map_cons, List.zipWith_cons_cons, String.join_cons, ← hjoin, hrest,
        String.ofList_append, String.ofList_append, String.ofList_toList]

/-- No token of a text is the token for its end. -/
theorem kind_ne_endOfText_of_mem_lexemes (h : t ∈ c.lexemes) : t.kind ≠ .endOfText := by
  intro hkind
  have hempty : t.token.literal = "" := ((spelled_of_mem_lexemes h).kind_eq_iff .endOfText).1 hkind
  obtain ⟨d, ds, -, hliteral, -⟩ := spelled_of_mem_lexemes h
  rw [hempty] at hliteral
  cases hliteral

end Cursor

/-! ## Texts -/

/-- **Scanning loses nothing.**  The tokens of a text are tokens that are not empty and then the one
token for the end of the text; they lie one behind the other, and each has the text under its span.
The gaps in front of them are blank, and the gaps and the tokens by turns are the text. -/
theorem tokens_interleave (source : String) :
    (∃ ts, tokens source = ts ++ [.endOfText source.utf8ByteSize] ∧
      ∀ t ∈ ts, t.kind ≠ .endOfText ∧ t.span.start < t.span.stop) ∧
    ((tokens source).Pairwise fun t u => t.span.stop ≤ u.span.start) ∧
    (∀ t ∈ tokens source, t.span.slice? source = some t.literal) ∧
    ∃ gs : List String,
      (gapsFrom 0 (tokens source)).map (fun s => s.slice? source) = gs.map some ∧
      (∀ g ∈ gs, ∀ c ∈ g.toList, isBlank c) ∧
      source = String.join (List.zipWith (· ++ ·) gs ((tokens source).map (·.literal))) := by
  have hin := Cursor.isIn_ofString source
  refine ⟨⟨_, tokens_eq_append source, ?_⟩, (Cursor.ofString source).pairwise_tokens,
    hin.slice?_of_mem_tokens, ?_⟩
  · intro t ht
    obtain ⟨u, hu, rfl⟩ := List.mem_map.1 ht
    exact ⟨Cursor.kind_ne_endOfText_of_mem_lexemes hu,
      (Cursor.ofString source).inOrder_lexemes.start_lt_stop _ ht⟩
  · obtain ⟨gs, hslices, hblank, hjoin⟩ := hin.exists_gaps
    have hsource : String.ofList (Cursor.ofString source).rest = source := String.ofList_toList
    rw [hsource] at hjoin
    exact ⟨gs, hslices, hblank, hjoin⟩

/-- Characters of two and three bytes, and blanks at the end. -/
example : (tokens "é = ∀ \n").map (fun t => (t.literal, t.span)) =
    [("é", ⟨0, 2⟩), ("=", ⟨3, 4⟩), ("∀", ⟨5, 8⟩), ("", ⟨10, 10⟩)] := by decide +kernel

end MonkeyLang
