import MonkeyLang.Proofs.Scanning
import MonkeyLang.Relocation

/-!
# Texts that spell a row of tokens

`Spells cs ts` builds a text from its end: a blank may be put in front of it at any time, a token only
if it does not absorb the character behind it.  A text that is built so scans to the tokens of which it
was built, wherever it stands (`Cursor.tokens_of_spells`).

What a token begins with and which characters it can hold is read off the cut that spells it: a
character that stands in no longer token is a token by itself (`Munch.ofChar_of_mem_literal`).
-/

namespace MonkeyLang

open Character

/-- The token, with nothing kept of where it stands. -/
def Token.unplaced : Token → Token := mapSpan fun _ => .point 0

/-- The characters spell the tokens, with any blanks between them and at least one where a token would
take the character behind it. -/
inductive Spells : List Char → List Token → Prop
  | nil : Spells [] []
  | blank {c : Char} {cs : List Char} {ts : List Token} : isBlank c → Spells cs ts →
      Spells (c :: cs) ts
  | token {t : Token} {cs : List Char} {ts : List Token} : t.Spelled →
      (∀ d ∈ cs.head?, t.kind.absorbs d = false) → Spells cs ts →
      Spells (t.literal.toList ++ cs) (t :: ts)

/-! ## Characters of a token -/

theorem TokenKind.absorbs_of_isBlank (kind : TokenKind) {d : Char} (h : isBlank d) :
    kind.absorbs d = false := by
  have hne : (d == '=') = false := by
    rcases isBlank_iff.1 h with rfl | rfl | rfl | rfl <;> decide
  cases kind with
  | keyword k | name => exact isLetter_of_isBlank h
  | integer => exact isDigit_of_isBlank h
  | operator o =>
    cases o with
    | assign | bang => exact hne
    | _ => rfl
  | _ => rfl

/-- A character that stands in no longer token is a token by itself. -/
theorem Munch.ofChar_of_mem_literal {c x : Char} {cs : List Char} (hx : x ∈ (ofCons c cs).literal)
    (hletter : isLetter x = false) (hdigit : isDigit x = false) (hassign : x ≠ '=')
    (hbang : x ≠ '!') : Onset.ofChar x = .single (ofCons c cs).kind := by
  have hrun {p : Char → Bool} (hc : p c) (h : x ∈ c :: cs.takeWhile p) : p x := by
    rcases List.mem_cons.1 h with rfl | h
    · exact hc
    · exact List.all_eq_true.1 List.all_takeWhile x h
  cases ho : Onset.ofChar c with
  | word =>
    simp only [ofCons_of_word _ ho, word] at hx
    have h := hrun (Onset.isLetter_of_ofChar_eq_word ho) hx
    rw [hletter] at h
    cases h
  | numeral =>
    simp only [ofCons_of_numeral _ ho, numeral] at hx
    have h := hrun (Onset.isDigit_of_ofChar_eq_numeral ho) hx
    rw [hdigit] at h
    cases h
  | pair simple compound =>
    -- A symbol of two characters holds none but these two.
    have hc : c = '=' ∨ c = '!' :=
      (Onset.ofChar_eq_pair_iff.1 ho).imp (fun h => h.1) fun h => h.1
    have hmem : x = c ∨ x = '=' := by
      simp only [ofCons_of_pair _ ho, pair] at hx
      split at hx
      · simpa using hx
      · exact Or.inl (List.mem_singleton.1 hx)
    rcases hmem with rfl | rfl
    · rcases hc with rfl | rfl
      · exact absurd rfl hassign
      · exact absurd rfl hbang
    · exact absurd rfl hassign
  | single kind =>
    simp only [ofCons_of_single _ ho] at hx ⊢
    rw [List.mem_singleton.1 hx, ho]

/-- A token that begins with the sign `=` is that sign or an operator of two characters. -/
theorem Munch.kind_ofCons_assign (cs : List Char) :
    (ofCons '=' cs).kind = .operator .assign ∨ (ofCons '=' cs).kind = .operator .equal := by
  rw [ofCons_of_pair cs (rfl : Onset.ofChar '=' = .pair .assign .equal)]
  unfold pair
  split
  · exact Or.inr rfl
  · exact Or.inl rfl

namespace Cursor

/-! ## Scanning such a text -/

/-- A blank in front of a text is skipped. -/
theorem tokens_cons_blank {c : Char} (hc : isBlank c) (o : Nat) (cs : List Char) :
    (Cursor.mk o (c :: cs)).lexemes.map (·.token) =
      (Cursor.mk (o + c.utf8Size) cs).lexemes.map (·.token) := by
  have hdrop : (c :: cs).dropWhile isBlank = cs.dropWhile isBlank := List.dropWhile_cons_of_pos hc
  have hgap : (Cursor.mk o (c :: cs)).gap = c :: (Cursor.mk (o + c.utf8Size) cs).gap :=
    List.takeWhile_cons_of_pos hc
  cases hd : cs.dropWhile isBlank with
  | nil =>
    rw [lexemes_of_next?_eq_none (next?_eq_none_iff.2 (hdrop.trans hd)),
      lexemes_of_next?_eq_none (next?_eq_none_iff.2 hd)]
  | cons d ds =>
    have hnext := next?_of_dropWhile (c := ⟨o + c.utf8Size, cs⟩) hd
    have hnext' := next?_of_dropWhile (c := ⟨o, c :: cs⟩) (hdrop.trans hd)
    rw [hgap, byteLength_cons, ← Nat.add_assoc] at hnext'
    rw [lexemes_of_next?_eq_some hnext, lexemes_of_next?_eq_some hnext', List.map_cons,
      List.map_cons]

/-- A text that spells a row of tokens scans to that row. -/
theorem tokens_of_spells {cs : List Char} {ts : List Token} (h : Spells cs ts) (o : Nat) :
    (Cursor.mk o cs).lexemes.map (·.token.unplaced) = ts.map Token.unplaced := by
  induction h generalizing o with
  | nil => rw [lexemes_of_next?_eq_none (next?_eq_none_iff.2 rfl), List.map_nil, List.map_nil]
  | @blank c cs ts hc _ ih =>
    have htail := congrArg (List.map Token.unplaced) (tokens_cons_blank hc o cs)
    rw [List.map_map, List.map_map] at htail
    exact htail.trans (ih _)
  | @token t cs ts ht habsorbs _ ih =>
    obtain ⟨c, l, hc, hlit, hmunch⟩ := ht
    have hdrop : (Cursor.mk o (t.literal.toList ++ cs)).rest.dropWhile isBlank = c :: (l ++ cs) := by
      show (t.literal.toList ++ cs).dropWhile isBlank = c :: (l ++ cs)
      rw [hlit, List.cons_append, List.dropWhile_cons_of_neg (by simp [hc])]
    have hcut : Munch.ofCons c (l ++ cs) = ⟨t.kind, c :: l, cs⟩ := by
      rw [Munch.ofCons_append (by rw [hmunch]; exact fun _ => habsorbs), hmunch, List.nil_append]
    rw [lexemes_of_next?_eq_some (next?_of_dropWhile hdrop), List.map_cons, List.map_cons, hcut, ih]
    refine congrArg (· :: _) ?_
    show Token.mk t.kind (String.ofList (c :: l)) _ = Token.mk t.kind t.literal _
    rw [← hlit, String.ofList_toList]

end Cursor

end MonkeyLang
