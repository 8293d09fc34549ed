import MonkeyLang.Proofs.Lexicon
import MonkeyLang.Proofs.Seam
import MonkeyLang.Proofs.Spelling
import MonkeyLang.Text.Slice

/-!
# Texts that scan one after the other

The tokens of two texts laid end to end are those of the first and then those of the second, exactly
if no token grows over the seam (`tokens_append_iff`).  Whether one does hangs on the last token of
the first text, and not on its last character: `==` does not take a sign `=` behind it, `=` does.

If no token grows, the scan is cut at the seam by `Cursor.lexemes_append`.  For the converse, a
token of the first text that would grow is no token of the whole text at all: each token of a text
reaches as far as it can (`Cursor.exists_cut_of_mem_lexemes`).
-/

namespace MonkeyLang

open Character

/-- Whether a token of the kind, with the character `d` directly behind it, is the beginning of a longer
token: a word before a letter, a numeral before a digit, and `=` or `!` before `=`. -/
def TokenKind.GrowsBy (kind : TokenKind) (d : Char) : Prop :=
  (kind = name ∨ ∃ k, kind = keyword k) ∧ isLetter d ∨ kind = integer ∧ isDigit d ∨
    (kind = operator .assign ∨ kind = operator .bang) ∧ d = '='

/-- The last token of `a` reaches the end of `a` and grows by the first character of `b`. -/
def GrowsOver (a b : String) : Prop :=
  ∃ t ∈ (tokens a).dropLast.getLast?, t.span.stop = a.utf8ByteSize ∧
    ∃ d ∈ b.toList.head?, t.kind.GrowsBy d

theorem TokenKind.growsBy_iff {kind : TokenKind} {d : Char} : kind.GrowsBy d ↔ kind.absorbs d := by
  cases kind with
  | operator o => cases o <;> simp [GrowsBy, absorbs]
  | _ => simp [GrowsBy, absorbs]

theorem growsOver_iff {a b : String} : GrowsOver a b ↔
    ∃ t ∈ (Cursor.ofString a).lexemes.getLast?, t.token.span.stop = a.utf8ByteSize ∧
      ∃ d ∈ b.toList.head?, t.kind.absorbs d := by
  simp only [GrowsOver, TokenKind.growsBy_iff, tokens_eq_append, List.dropLast_concat,
    List.getLast?_map]
  cases (Cursor.ofString a).lexemes.getLast? <;> simp

namespace Cursor

/-- Blanks in front of a text are skipped. -/
theorem tokens_append_blanks {w : List Char} (hw : ∀ x ∈ w, isBlank x) (o : Nat) (cs : List Char) :
    (Cursor.mk o (w ++ cs)).lexemes.map (·.token) =
      (Cursor.mk (o + byteLength w) cs).lexemes.map (·.token) := by
  induction w generalizing o with
  | nil => rfl
  | cons c w ih =>
    obtain ⟨hc, hw⟩ := List.forall_mem_cons.1 hw
    rw [List.cons_append, tokens_cons_blank hc, ih hw, byteLength_cons, Nat.add_assoc]

/-- Where no token grows over the seam, the tokens are those of the one text and then those of the
other. -/
theorem tokens_ofString_append {a b : String} (h : ¬ GrowsOver a b) :
    (ofString (a ++ b)).lexemes.map (·.token) = (ofString a).lexemes.map (·.token) ++
      (ofString b).lexemes.map fun t => t.token.mapSpan (.shift a.utf8ByteSize) := by
  have htext : ofString (a ++ b) = (ofString a).append b.toList := by
    simp [ofString, append]
  have hseam : ∀ t ∈ (ofString a).lexemes.getLast?, t.token.span.stop = (ofString a).stop →
      ∀ d ∈ b.toList.head?, t.kind.absorbs d = false := by
    intro t ht hts d hd
    rw [stop_ofString] at hts
    refine Bool.eq_false_iff.2 fun habsorbs => h ?_
    exact growsOver_iff.2 ⟨t, ht, hts, d, hd, habsorbs⟩
  obtain ⟨o, w, hw, ho, hlexemes⟩ := (ofString a).lexemes_append hseam
  have hmoved : (Cursor.mk a.utf8ByteSize b.toList).lexemes =
      (ofString b).lexemes.map (Lexeme.mapSpan (.shift a.utf8ByteSize)) := by
    rw [← lexemes_shift, ofString, shift, Nat.zero_add]
  rw [htext, hlexemes, List.map_append, tokens_append_blanks hw, ho, stop_ofString, hmoved,
    List.map_map]
  rfl

end Cursor

/-- A token that grows over the seam is no token of the two texts together. -/
theorem GrowsOver.exists_notMem {a b : String} (h : GrowsOver a b) :
    ∃ t ∈ (tokens a).dropLast, t ∉ tokens (a ++ b) := by
  obtain ⟨t, ht, hstop, d, hd, habsorbs⟩ := growsOver_iff.1 h
  refine ⟨t.token, ?_, fun hmem => ?_⟩
  · rw [tokens_eq_append, List.dropLast_concat]
    exact List.mem_map_of_mem (List.mem_of_getLast? ht)
  rcases List.mem_append.1 hmem with hmem | hmem
  · obtain ⟨u, hu, htoken⟩ := List.mem_map.1 hmem
    have htoken : u.token = t.token := htoken
    obtain ⟨as, bs, hchars, hstart, hspan, hbs⟩ := Cursor.exists_cut_of_mem_lexemes hu
    -- The token would end at the seam in the whole text, with the second text behind it.
    have hseam : cutAt? a.utf8ByteSize (a ++ b).toList = some (a.toList, b.toList) :=
      cutAt?_eq_some_iff.2 ⟨String.toList_append, byteLength_toList a⟩
    have hcut : cutAt? a.utf8ByteSize (a ++ b).toList =
        some (as ++ u.token.literal.toList, bs) := by
      have hstart : 0 + byteLength as = u.token.span.start := hstart
      refine cutAt?_eq_some_iff.2 ⟨hchars, ?_⟩
      rw [htoken] at hstart hspan ⊢
      rw [byteLength_append]
      omega
    obtain ⟨-, rfl⟩ := Prod.mk.inj (Option.some.inj (hseam.symm.trans hcut))
    have hfalse : u.token.kind.absorbs d = false := hbs d hd
    rw [htoken] at hfalse
    exact Bool.false_ne_true (hfalse.symm.trans habsorbs)
  · have hkind : t.token.kind = .endOfText := by rw [List.mem_singleton.1 hmem]; rfl
    rw [Lexeme.kind, hkind] at habsorbs
    cases habsorbs

/-- **Two texts scan one after the other, unless a token grows over the seam.**  The tokens of two
texts laid end to end are the tokens of the first, without that for its end, and then those of the
second, further on by the size of the first, exactly if the last token of the first does not grow by
the first character of the second. -/
theorem tokens_append_iff (a b : String) :
    tokens (a ++ b) = (tokens a).dropLast ++ (tokens b).map (Token.mapSpan (.shift a.utf8ByteSize)) ↔
      ¬ GrowsOver a b := by
  constructor
  · intro h hgrows
    obtain ⟨t, ht, hnot⟩ := hgrows.exists_notMem
    rw [h] at hnot
    exact hnot (List.mem_append_left _ ht)
  · intro h
    have hend : Token.endOfText (a ++ b).utf8ByteSize =
        (Token.endOfText b.utf8ByteSize).mapSpan (.shift a.utf8ByteSize) := by
      rw [String.utf8ByteSize_append, Nat.add_comm]
      rfl
    rw [tokens_eq_append, tokens_eq_append a, tokens_eq_append b, List.dropLast_concat,
      Cursor.tokens_ofString_append h, hend, List.map_append, List.map_map, List.append_assoc]
    rfl

/-- Both texts end in `=`, and it is the token that counts. -/
example : (tokens ("==" ++ "=")).map (·.literal) = ["==", "=", ""] ∧
    (tokens ("=" ++ "=")).map (·.literal) = ["==", ""] := by decide +kernel

end MonkeyLang
