import Mathlib.Data.List.TakeWhile
import MonkeyLang.Token.Stream

/-!
# Tokens of a text

What a scan of a text yields, said of the token at its head and carried to all tokens by the recursion
of `Cursor.lexemes`.

A token is `Spelled` if its characters alone, with nothing before or behind them, scan to that token;
every token of a text is (`Cursor.spelled_of_mem_lexemes`).  Whether a token goes on with a character
that is put behind it hangs on its kind only: `TokenKind.absorbs` says when, and `Munch.ofCons_append`
that otherwise the cut after the token stays where it is.  The spans of the tokens of a text are not
empty and lie one behind the other (`Cursor.inOrder_lexemes`).
-/

namespace MonkeyLang

open Character

/-! ## Runs of characters -/

section Runs

variable {α : Type} {p : α → Bool} {as bs : List α}

theorem takeWhile_append_of_halt (h : as.dropWhile p = [] → ∀ b ∈ bs.head?, p b = false) :
    (as ++ bs).takeWhile p = as.takeWhile p := by
  induction as with
  | nil =>
    cases bs with
    | nil => rfl
    | cons b bs => rw [List.nil_append, List.takeWhile_cons_of_neg (by simp [h rfl b rfl])]; rfl
  | cons a as ih =>
    by_cases ha : p a
    · rw [List.dropWhile_cons_of_pos ha] at h
      rw [List.cons_append, List.takeWhile_cons_of_pos ha, List.takeWhile_cons_of_pos ha, ih h]
    · rw [List.cons_append, List.takeWhile_cons_of_neg ha, List.takeWhile_cons_of_neg ha]

theorem dropWhile_append_of_halt (h : as.dropWhile p = [] → ∀ b ∈ bs.head?, p b = false) :
    (as ++ bs).dropWhile p = as.dropWhile p ++ bs := by
  induction as with
  | nil =>
    cases bs with
    | nil => rfl
    | cons b bs => rw [List.nil_append, List.dropWhile_cons_of_neg (by simp [h rfl b rfl])]; rfl
  | cons a as ih =>
    by_cases ha : p a
    · rw [List.dropWhile_cons_of_pos ha] at h
      rw [List.cons_append, List.dropWhile_cons_of_pos ha, List.dropWhile_cons_of_pos ha, ih h]
    · rw [List.cons_append, List.dropWhile_cons_of_neg ha, List.dropWhile_cons_of_neg ha]
      rfl

end Runs

/-! ## The first character of a token -/

namespace TokenKind

/-- Whether a token of this kind takes the character `d` if it stands directly behind. -/
def absorbs (kind : TokenKind) (d : Char) : Bool :=
  match kind with
  | keyword _ => isLetter d
  | name => isLetter d
  | integer => isDigit d
  | operator .assign => d == '='
  | operator .bang => d == '='
  | _ => false

theorem absorbs_ofWord (word : String) (d : Char) : (ofWord word).absorbs d = isLetter d := by
  unfold ofWord
  split <;> rfl

end TokenKind

namespace Onset

variable {c : Char}

theorem ofChar_of_isLetter (h : isLetter c) : ofChar c = .word := by
  unfold ofChar
  split
  case h_15 => rw [if_pos h]
  all_goals exact absurd h (by decide)

theorem ofChar_of_isDigit (h : isDigit c) : ofChar c = .numeral := by
  have hl : ¬ isLetter c := by
    intro hl
    rw [isDigit_of_isLetter hl] at h
    cases h
  unfold ofChar
  split
  case h_15 => rw [if_neg hl, if_pos h]
  all_goals exact absurd h (by decide)

theorem isLetter_of_ofChar_eq_word (h : ofChar c = .word) : isLetter c := by
  unfold ofChar at h
  split at h
  case h_15 =>
    by_contra hl
    rw [if_neg hl] at h
    split at h <;> cases h
  all_goals cases h

theorem isDigit_of_ofChar_eq_numeral (h : ofChar c = .numeral) : isDigit c := by
  unfold ofChar at h
  split at h
  case h_15 =>
    split at h
    · cases h
    · by_contra hd
      rw [if_neg hd] at h
      cases h
  all_goals cases h

/-- Only `=` and `!` begin two operators. -/
theorem ofChar_eq_pair_iff {simple compound : Operator} :
    ofChar c = .pair simple compound ↔ c = '=' ∧ simple = .assign ∧ compound = .equal ∨
      c = '!' ∧ simple = .bang ∧ compound = .notEqual := by
  constructor
  · intro h
    unfold ofChar at h
    split at h
    case h_1 =>
      cases h
      exact Or.inl ⟨rfl, rfl, rfl⟩
    case h_2 =>
      cases h
      exact Or.inr ⟨rfl, rfl, rfl⟩
    case h_15 =>
      split at h
      · cases h
      · split at h <;> cases h
    all_goals cases h
  · rintro (⟨rfl, rfl, rfl⟩ | ⟨rfl, rfl, rfl⟩) <;> rfl

/-- A token of one character takes none that is behind it. -/
theorem absorbs_of_ofChar_eq_single {kind : TokenKind} (h : ofChar c = .single kind) (d : Char) :
    kind.absorbs d = false := by
  unfold ofChar at h
  split at h
  case h_1 | h_2 => cases h
  case h_15 =>
    split at h
    · cases h
    · split at h
      · cases h
      · cases h
        rfl
  all_goals
    cases h
    rfl

end Onset

/-! ## The token at the head of a text -/

namespace Munch

theorem pair_of_ne {simple compound : Operator} {c : Char} {cs : List Char}
    (h : ∀ d ∈ cs.head?, d ≠ '=') : pair simple compound c cs = ⟨.operator simple, [c], cs⟩ := by
  unfold pair
  split
  · exact absurd rfl (h '=' rfl)
  · rfl

theorem ofCons_append {c : Char} {cs bs : List Char}
    (h : (ofCons c cs).rest = [] → ∀ d ∈ bs.head?, (ofCons c cs).kind.absorbs d = false) :
    ofCons c (cs ++ bs) =
      ⟨(ofCons c cs).kind, (ofCons c cs).literal, (ofCons c cs).rest ++ bs⟩ := by
  cases ho : Onset.ofChar c with
  | word =>
    simp only [ofCons_of_word _ ho, word] at h ⊢
    have hhalt : cs.dropWhile isLetter = [] → ∀ d ∈ bs.head?, isLetter d = false := by
      intro hnil d hd
      rw [← TokenKind.absorbs_ofWord]
      exact h hnil d hd
    rw [takeWhile_append_of_halt hhalt, dropWhile_append_of_halt hhalt]
  | numeral =>
    simp only [ofCons_of_numeral _ ho, numeral] at h ⊢
    rw [takeWhile_append_of_halt h, dropWhile_append_of_halt h]
  | pair simple compound =>
    simp only [ofCons_of_pair _ ho] at h ⊢
    cases cs with
    | nil =>
      -- With the sign `=` behind it, the operator of one character would absorb it.
      have hne : ∀ d ∈ bs.head?, d ≠ '=' := by
        rintro d hd rfl
        have habsorbs := h rfl '=' hd
        rcases Onset.ofChar_eq_pair_iff.1 ho with ⟨-, rfl, -⟩ | ⟨-, rfl, -⟩ <;> cases habsorbs
      rw [List.nil_append, pair_of_ne hne]
      rfl
    | cons d ds =>
      by_cases hd : d = '='
      · subst hd
        rfl
      · rw [List.cons_append, pair_of_ne (by simpa using hd), pair_of_ne (by simpa using hd)]
        rfl
  | single kind =>
    simp only [ofCons_of_single _ ho]

/-- The characters of a token scan to that token by themselves. -/
theorem ofCons_literal (c : Char) (cs : List Char) :
    ∃ l, (ofCons c cs).literal = c :: l ∧ ofCons c l = ⟨(ofCons c cs).kind, c :: l, []⟩ := by
  have hrun (p : Char → Bool) : (cs.takeWhile p).takeWhile p = cs.takeWhile p ∧
      (cs.takeWhile p).dropWhile p = [] := by
    have hall : ∀ x ∈ cs.takeWhile p, p x := fun x hx => List.all_eq_true.1 (List.all_takeWhile) x hx
    exact ⟨List.takeWhile_eq_self_iff.2 hall, List.dropWhile_eq_nil_iff.2 hall⟩
  cases ho : Onset.ofChar c with
  | word =>
    refine ⟨cs.takeWhile isLetter, ?_, ?_⟩
    · rw [ofCons_of_word _ ho, word]
    · rw [ofCons_of_word _ ho, ofCons_of_word _ ho, word, word, (hrun isLetter).1, (hrun isLetter).2]
  | numeral =>
    refine ⟨cs.takeWhile isDigit, ?_, ?_⟩
    · rw [ofCons_of_numeral _ ho, numeral]
    · rw [ofCons_of_numeral _ ho, ofCons_of_numeral _ ho, numeral, numeral, (hrun isDigit).1,
        (hrun isDigit).2]
  | pair simple compound =>
    simp only [ofCons_of_pair _ ho, pair]
    split
    · exact ⟨['='], rfl, rfl⟩
    · exact ⟨[], rfl, rfl⟩
  | single kind =>
    simp only [ofCons_of_single _ ho]
    exact ⟨[], rfl, rfl⟩

/-- A token reaches as far as it can: it does not absorb the character behind it. -/
theorem absorbs_rest {c d : Char} {cs : List Char} (h : d ∈ (ofCons c cs).rest.head?) :
    (ofCons c cs).kind.absorbs d = false := by
  have hrun {p : Char → Bool} (hd : d ∈ (cs.dropWhile p).head?) : p d = false := by
    have hnot := List.head?_dropWhile_not p cs
    rw [Option.mem_def.1 hd] at hnot
    simpa using hnot
  cases ho : Onset.ofChar c with
  | word =>
    simp only [ofCons_of_word _ ho, word] at h ⊢
    rw [TokenKind.absorbs_ofWord]
    exact hrun h
  | numeral =>
    simp only [ofCons_of_numeral _ ho, numeral] at h ⊢
    exact hrun h
  | pair simple compound =>
    simp only [ofCons_of_pair _ ho, pair] at h ⊢
    split at h
    · rcases Onset.ofChar_eq_pair_iff.1 ho with ⟨-, -, rfl⟩ | ⟨-, -, rfl⟩ <;> rfl
    · rename_i hne
      have hd : d ≠ '=' := by
        rintro rfl
        obtain ⟨ds, rfl⟩ := List.head?_eq_some_iff.1 h
        exact hne ds rfl
      rcases Onset.ofChar_eq_pair_iff.1 ho with ⟨-, rfl, -⟩ | ⟨-, rfl, -⟩ <;>
        exact beq_false_of_ne hd
  | single kind =>
    simp only [ofCons_of_single _ ho]
    exact Onset.absorbs_of_ofChar_eq_single ho d

end Munch

/-- A token whose characters alone scan to it. -/
def Token.Spelled (t : Token) : Prop :=
  ∃ c cs, isBlank c = false ∧ t.literal.toList = c :: cs ∧
    Munch.ofCons c cs = ⟨t.kind, c :: cs, []⟩

/-- Tokens with spans that are not empty, each behind the one before it. -/
structure InOrder (ts : List Token) : Prop where
  start_lt_stop : ∀ t ∈ ts, t.span.start < t.span.stop
  pairwise : ts.Pairwise fun t u => t.span.stop ≤ u.span.start

/-! ## The next token at a place -/

namespace Cursor

theorem next?_eq_none_iff {c : Cursor} : c.next? = none ↔ c.rest.dropWhile isBlank = [] := by
  unfold next?
  split
  · rename_i h
    exact iff_of_true rfl h
  · rename_i d ds h
    exact iff_of_false (by simp) (by simp [h])

theorem next?_of_dropWhile {c : Cursor} {d : Char} {ds : List Char}
    (h : c.rest.dropWhile isBlank = d :: ds) :
    c.next? = some
      (⟨⟨(Munch.ofCons d ds).kind, String.ofList (Munch.ofCons d ds).literal,
          ⟨c.offset + byteLength c.gap,
            c.offset + byteLength c.gap + byteLength (Munch.ofCons d ds).literal⟩⟩,
        c.gap.contains '\n'⟩,
      ⟨c.offset + byteLength c.gap + byteLength (Munch.ofCons d ds).literal,
        (Munch.ofCons d ds).rest⟩) := by
  unfold next?
  split
  · rename_i hnil
    rw [h] at hnil
    cases hnil
  · rename_i e es hcons
    obtain ⟨rfl, rfl⟩ := List.cons.inj (h.symm.trans hcons)
    rfl

theorem exists_of_next?_eq_some {c c' : Cursor} {t : Lexeme} (h : c.next? = some (t, c')) :
    ∃ d ds, c.rest.dropWhile isBlank = d :: ds := by
  cases hd : c.rest.dropWhile isBlank with
  | nil =>
    rw [next?_eq_none_iff.2 hd] at h
    cases h
  | cons d ds => exact ⟨d, ds, rfl⟩

theorem spelled_of_next? {c c' : Cursor} {t : Lexeme} (h : c.next? = some (t, c')) :
    t.token.Spelled := by
  obtain ⟨d, ds, hd⟩ := exists_of_next?_eq_some h
  rw [next?_of_dropWhile hd] at h
  cases h
  obtain ⟨l, hl, hm⟩ := Munch.ofCons_literal d ds
  refine ⟨d, l, ?_, by rw [String.toList_ofList, hl], hm⟩
  have hhead := List.head?_dropWhile_not isBlank c.rest
  simpa [hd] using hhead

theorem span_of_next? {c c' : Cursor} {t : Lexeme} (h : c.next? = some (t, c')) :
    c.offset ≤ t.token.span.start ∧ t.token.span.start < t.token.span.stop ∧
      t.token.span.stop = c'.offset := by
  obtain ⟨d, ds, hd⟩ := exists_of_next?_eq_some h
  rw [next?_of_dropWhile hd] at h
  cases h
  have hpos := byteLength_pos (Munch.literal_ne_nil d ds)
  exact ⟨Nat.le_add_right _ _, Nat.lt_add_of_pos_right hpos, rfl⟩

/-- A step over a token: blanks, the characters of the token, and what is behind them. -/
theorem exists_gap_of_next? {c c' : Cursor} {t : Lexeme} (h : c.next? = some (t, c')) :
    ∃ w, (∀ x ∈ w, isBlank x) ∧ c.rest = w ++ t.token.literal.toList ++ c'.rest ∧
      t.startsLine = w.contains '\n' ∧ t.token.span.start = c.offset + byteLength w ∧
      t.token.span.stop = t.token.span.start + byteLength t.token.literal.toList ∧
      c'.offset = t.token.span.stop := by
  obtain ⟨d, ds, hd⟩ := exists_of_next?_eq_some h
  rw [next?_of_dropWhile hd] at h
  cases h
  have hsplit : c.gap ++ c.rest.dropWhile isBlank = c.rest := List.takeWhile_append_dropWhile
  refine ⟨c.gap, fun x hx => List.all_eq_true.1 List.all_takeWhile x hx, ?_, rfl, rfl, ?_, rfl⟩
  · rw [String.toList_ofList, List.append_assoc, Munch.literal_append_rest, ← hd, hsplit]
  · rw [String.toList_ofList]

theorem absorbs_of_next? {c c' : Cursor} {t : Lexeme} (h : c.next? = some (t, c')) :
    ∀ d ∈ c'.rest.head?, t.kind.absorbs d = false := by
  obtain ⟨d, ds, hd⟩ := exists_of_next?_eq_some h
  rw [next?_of_dropWhile hd] at h
  cases h
  exact fun x hx => Munch.absorbs_rest hx

/-- Behind blanks the next token is the one that is spelled there, if it does not absorb what follows. -/
theorem next?_of_spelled {t : Lexeme} {o : Nat} {w bs : List Char} (ht : t.token.Spelled)
    (hw : ∀ x ∈ w, isBlank x) (hbs : ∀ d ∈ bs.head?, t.kind.absorbs d = false)
    (hline : t.startsLine = w.contains '\n') (hstart : t.token.span.start = o + byteLength w)
    (hstop : t.token.span.stop = t.token.span.start + byteLength t.token.literal.toList) :
    (Cursor.mk o (w ++ t.token.literal.toList ++ bs)).next? =
      some (t, ⟨t.token.span.stop, bs⟩) := by
  obtain ⟨⟨kind, literal, start, stop⟩, line⟩ := t
  obtain ⟨d, l, hblank, hlit, hmunch⟩ := ht
  simp only at hbs hline hstart hstop hlit hmunch ⊢
  have hdrop : (w ++ literal.toList ++ bs).dropWhile isBlank = d :: (l ++ bs) := by
    rw [List.append_assoc, List.dropWhile_append_of_pos hw, hlit, List.cons_append,
      List.dropWhile_cons_of_neg (by simp [hblank])]
  have hgap : (Cursor.mk o (w ++ literal.toList ++ bs)).gap = w := by
    show (w ++ literal.toList ++ bs).takeWhile isBlank = w
    rw [List.append_assoc, List.takeWhile_append_of_pos hw, hlit, List.cons_append,
      List.takeWhile_cons_of_neg (by simp [hblank]), List.append_nil]
  have hcut : Munch.ofCons d (l ++ bs) = ⟨kind, d :: l, bs⟩ := by
    rw [Munch.ofCons_append (by rw [hmunch]; exact fun _ => hbs), hmunch, List.nil_append]
  rw [next?_of_dropWhile hdrop, hgap, hcut, hline, hstop, hstart, hlit, ← hlit, String.ofList_toList]

/-! ## All tokens from a place on -/

theorem exists_next?_of_lexemes_eq_cons {c : Cursor} {t : Lexeme} {ts : List Lexeme}
    (h : c.lexemes = t :: ts) : ∃ c', c.next? = some (t, c') ∧ c'.lexemes = ts := by
  cases hc : c.next? with
  | none =>
    rw [lexemes_of_next?_eq_none hc] at h
    cases h
  | some r =>
    obtain ⟨u, c'⟩ := r
    rw [lexemes_of_next?_eq_some hc] at h
    obtain ⟨rfl, rfl⟩ := List.cons.inj h
    exact ⟨c', rfl, rfl⟩

theorem spelled_of_mem_lexemes {c : Cursor} {t : Lexeme} (h : t ∈ c.lexemes) :
    t.token.Spelled := by
  fun_induction lexemes c with
  | case1 c hc => cases h
  | case2 c u c' hc ih =>
    rcases List.mem_cons.1 h with rfl | h
    · exact spelled_of_next? hc
    · exact ih h

theorem offset_le_start {c : Cursor} {t : Lexeme} (h : t ∈ c.lexemes) :
    c.offset ≤ t.token.span.start := by
  fun_induction lexemes c with
  | case1 c hc => cases h
  | case2 c u c' hc ih =>
    obtain ⟨h₁, h₂, h₃⟩ := span_of_next? hc
    rcases List.mem_cons.1 h with rfl | h
    · exact h₁
    · have := ih h
      omega

theorem stop_le_of_mem_lexemes {c : Cursor} {t : Lexeme} (h : t ∈ c.lexemes) :
    t.token.span.stop ≤ c.stop := by
  fun_induction lexemes c with
  | case1 c hc => cases h
  | case2 c u c' hc ih =>
    rw [← next?_stop hc]
    rcases List.mem_cons.1 h with rfl | h
    · obtain ⟨-, -, h₃⟩ := span_of_next? hc
      rw [h₃]
      exact Nat.le_add_right _ _
    · exact ih h

theorem inOrder_lexemes (c : Cursor) : InOrder (c.lexemes.map (·.token)) := by
  fun_induction lexemes c with
  | case1 c hc => exact ⟨List.forall_mem_nil _, .nil⟩
  | case2 c u c' hc ih =>
    obtain ⟨-, h₂, h₃⟩ := span_of_next? hc
    refine ⟨List.forall_mem_cons.2 ⟨h₂, ih.start_lt_stop⟩,
      List.pairwise_cons.2 ⟨fun t ht => ?_, ih.pairwise⟩⟩
    obtain ⟨v, hv, rfl⟩ := List.mem_map.1 ht
    rw [h₃]
    exact offset_le_start hv

/-- The tokens lie one behind the other, and the end of the text behind them all. -/
theorem pairwise_tokens (c : Cursor) :
    c.tokens.Pairwise fun t u => t.span.stop ≤ u.span.start := by
  refine List.pairwise_append.2 ⟨c.inOrder_lexemes.pairwise, List.pairwise_singleton _ _, ?_⟩
  intro t ht e he
  obtain ⟨u, hu, rfl⟩ := List.mem_map.1 ht
  obtain rfl := List.mem_singleton.1 he
  exact stop_le_of_mem_lexemes hu

/-- No token is at a single point of the text. -/
theorem span_ne_point_of_mem_lexemes {c : Cursor} {t : Lexeme} (h : t ∈ c.lexemes) (n : Nat) :
    t.token.span ≠ .point n := by
  intro heq
  have hlt := (inOrder_lexemes c).start_lt_stop _ (List.mem_map_of_mem h)
  rw [heq] at hlt
  exact Nat.lt_irrefl n hlt

end Cursor

end MonkeyLang
