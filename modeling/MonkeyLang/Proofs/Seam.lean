import Mathlib.Data.List.TakeWhile
import MonkeyLang.Proofs.Scanning
import MonkeyLang.Relocation

/-!
# Texts end to end

The tokens of two texts that stand end to end.  Where the last token of the first text does not absorb
the first character of the second, no token reaches over the seam, and the lexemes are those of the
first text and then those of the second, further on by the size of the first
(`Cursor.lexemes_append`, `Cursor.lexemes_shift`).  Only the blanks at the end of the first text are
now in front of the second one's first token, so that token may have come to start a line.
-/

namespace MonkeyLang.Cursor

open Character

/-- The same place, in the text with `bs` behind it. -/
def append (c : Cursor) (bs : List Char) : Cursor := ⟨c.offset, c.rest ++ bs⟩

/-- The same place, `n` bytes further on. -/
def shift (n : Nat) (c : Cursor) : Cursor := ⟨c.offset + n, c.rest⟩

/-! ## Moving a text -/

theorem next?_shift_eq_none {c : Cursor} (n : Nat) (h : c.next? = none) :
    (c.shift n).next? = none := by
  rw [next?_eq_none_iff] at h ⊢
  exact h

theorem next?_shift_eq_some {c c' : Cursor} {t : Lexeme} (n : Nat) (h : c.next? = some (t, c')) :
    (c.shift n).next? = some (t.mapSpan (Span.shift n), c'.shift n) := by
  obtain ⟨d, ds, hd⟩ := exists_of_next?_eq_some h
  have hs : (c.shift n).rest.dropWhile isBlank = d :: ds := hd
  rw [next?_of_dropWhile hd] at h
  cases h
  rw [next?_of_dropWhile hs]
  simp only [shift, gap, Nat.add_right_comm _ n, Lexeme.mapSpan, Token.mapSpan, Span.shift]

theorem lexemes_shift (n : Nat) (c : Cursor) :
    (c.shift n).lexemes = c.lexemes.map (Lexeme.mapSpan (Span.shift n)) := by
  fun_induction lexemes c with
  | case1 c hc => rw [lexemes_of_next?_eq_none (next?_shift_eq_none n hc), List.map_nil]
  | case2 c t c' hc ih =>
    rw [lexemes_of_next?_eq_some (next?_shift_eq_some n hc), ih, List.map_cons]

/-! ## Putting a text behind another -/

theorem next?_append {c c' : Cursor} {t : Lexeme} {bs : List Char} (h : c.next? = some (t, c'))
    (hbs : c'.rest = [] → ∀ d ∈ bs.head?, t.kind.absorbs d = false) :
    (c.append bs).next? = some (t, c'.append bs) := by
  obtain ⟨d, ds, hd⟩ := exists_of_next?_eq_some h
  rw [next?_of_dropWhile hd] at h
  cases h
  have hhalt : c.rest.dropWhile isBlank = [] → ∀ b ∈ bs.head?, isBlank b = false := by
    intro hnil
    rw [hd] at hnil
    cases hnil
  have happ : (c.append bs).rest.dropWhile isBlank = d :: (ds ++ bs) := by
    show (c.rest ++ bs).dropWhile isBlank = _
    rw [dropWhile_append_of_halt hhalt, hd, List.cons_append]
  have hgap : (c.append bs).gap = c.gap := takeWhile_append_of_halt hhalt
  rw [next?_of_dropWhile happ, hgap, Munch.ofCons_append hbs]
  rfl

/-- Behind a text whose last token does not absorb what follows, the scan goes on from the blanks at
the end of that text. -/
theorem lexemes_append (c : Cursor) {bs : List Char}
    (h : ∀ t ∈ c.lexemes.getLast?, t.token.span.stop = c.stop →
      ∀ d ∈ bs.head?, t.kind.absorbs d = false) :
    ∃ o w, (∀ x ∈ w, isBlank x) ∧ o + byteLength w = c.stop ∧
      (c.append bs).lexemes = c.lexemes ++ (Cursor.mk o (w ++ bs)).lexemes := by
  fun_induction lexemes c with
  | case1 c hc =>
    have hall := List.dropWhile_eq_nil_iff.1 (next?_eq_none_iff.1 hc)
    exact ⟨c.offset, c.rest, hall, rfl, rfl⟩
  | case2 c t c' hc ih =>
    have hstop : c'.stop = c.stop := next?_stop hc
    have hlast : c'.rest = [] → ∀ d ∈ bs.head?, t.kind.absorbs d = false := by
      intro hnil
      have hend : c'.lexemes = [] := by
        refine lexemes_of_next?_eq_none (next?_eq_none_iff.2 ?_)
        rw [hnil, List.dropWhile_nil]
      refine h t ?_ ?_
      · rw [hend]
        rfl
      · rw [(span_of_next? hc).2.2, ← hstop, stop, hnil, byteLength_nil, Nat.add_zero]
    have hrest : ∀ u ∈ c'.lexemes.getLast?, u.token.span.stop = c'.stop →
        ∀ d ∈ bs.head?, u.kind.absorbs d = false := by
      intro u hu hus
      refine h u ?_ (hus.trans hstop)
      rw [List.getLast?_cons, Option.mem_def.1 hu]
      rfl
    obtain ⟨o, w, hw, ho, heq⟩ := ih hrest
    refine ⟨o, w, hw, ho.trans hstop, ?_⟩
    rw [lexemes_of_next?_eq_some (next?_append hc hlast), heq, List.cons_append]

/-- Behind blanks a semicolon is a token by itself, and the scan goes on behind it. -/
theorem lexemes_semicolon (o : Nat) {w : List Char} (hw : ∀ x ∈ w, isBlank x) (bs : List Char) :
    (Cursor.mk o (w ++ ';' :: bs)).lexemes =
      ⟨.ofText .semicolon ";" (o + byteLength w), w.contains '\n'⟩ ::
        (Cursor.mk (o + byteLength w + 1) bs).lexemes := by
  have hdrop : (w ++ ';' :: bs).dropWhile isBlank = ';' :: bs := by
    rw [List.dropWhile_append_of_pos hw]
    rfl
  have hgap : (Cursor.mk o (w ++ ';' :: bs)).gap = w := by
    show (w ++ ';' :: bs).takeWhile isBlank = w
    rw [List.takeWhile_append_of_pos hw]
    exact List.append_nil w
  have hmunch : Munch.ofCons ';' ([] ++ bs) = ⟨.semicolon, [';'], bs⟩ :=
    Munch.ofCons_append fun _ _ _ => rfl
  rw [List.nil_append] at hmunch
  refine lexemes_of_next?_eq_some ?_
  rw [next?_of_dropWhile (c := ⟨o, w ++ ';' :: bs⟩) hdrop, hgap, hmunch]
  rfl

end MonkeyLang.Cursor
