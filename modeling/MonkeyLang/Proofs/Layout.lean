import Mathlib.Data.List.Basic
import MonkeyLang.Proofs.Acceptance
import MonkeyLang.Proofs.Seam
import MonkeyLang.Proofs.Spelling

/-!
# Blanks between two texts

Two texts with blanks between them scan to the tokens of the first and then those of the second.  Only
one thing can have changed: whether the first token of the second text starts a line
(`Cursor.exists_lexemes_append_blanks`).

It has no effect on what is read from there on (`Program.outcomes_relined`).  Recovery asks a token for
its line only after it has passed another one, and the first token of a text can be refused as an
operand but is never one that was merely not expected.
-/

namespace MonkeyLang

open Character

/-- The lexeme, the first on its line if `l` says so. -/
def Lexeme.onLine (l : Bool) (t : Lexeme) : Lexeme := { t with startsLine := l }

/-- The stream, its first lexeme the first on its line if `l` says so. -/
def relined (l : Bool) : List Lexeme → List Lexeme
  | [] => []
  | t :: ts => t.onLine l :: ts

theorem head?_relined (l : Bool) (ts : List Lexeme) :
    (relined l ts).head? = ts.head?.map (Lexeme.onLine l) := by
  cases ts <;> rfl

/-! ## The first lexeme of a stream -/

namespace Expression

theorem readPrimary_onLine (deeper : OperandReader) (l : Bool) (t : Lexeme) (ts : List Lexeme) :
    readPrimary deeper (t.onLine l :: ts) = readPrimary deeper (t :: ts) ∨
      ∃ problem, readPrimary deeper (t :: ts) = .error ⟨problem, t :: ts⟩ ∧
        readPrimary deeper (t.onLine l :: ts) = .error ⟨problem, t.onLine l :: ts⟩ := by
  have hkind : (t.onLine l).kind = t.kind := rfl
  cases hb : t.kind.beginsOperand with
  | false =>
    exact Or.inr ⟨.noOperand, readPrimary_cons_refused deeper hb ts,
      readPrimary_cons_refused deeper (hkind.symm ▸ hb) ts⟩
  | true =>
    rcases TokenKind.beginsOperand_iff.1 hb with hk | hk | hu
    · refine Or.inl ?_
      rw [readPrimary_name deeper hk, readPrimary_name deeper (hkind.trans hk)]
      rfl
    · simp only [readPrimary, hkind, hk]
      cases hn : Numeral.read? t.token.literal.toList with
      | none => exact Or.inr ⟨.integerTooGreat, rfl, by rw [Lexeme.onLine, hn]⟩
      | some n => exact Or.inl (by rw [Lexeme.onLine, hn])
    · refine Or.inl ?_
      rw [readPrimary_cons_unary deeper hu, readPrimary_cons_unary deeper (hkind.symm ▸ hu)]
      rfl

/-- A reader asks its first lexeme for no line; it can only refuse it. -/
theorem reader_onLine (limit budget : Nat) (p : Precedence) (l : Bool) (t : Lexeme)
    (ts : List Lexeme) :
    (reader limit budget).read p (t.onLine l :: ts) = (reader limit budget).read p (t :: ts) ∨
      ∃ problem, (reader limit budget).read p (t :: ts) = .error ⟨problem, t :: ts⟩ ∧
        (reader limit budget).read p (t.onLine l :: ts) =
          .error ⟨problem, t.onLine l :: ts⟩ := by
  cases budget with
  | zero => exact Or.inr ⟨.tooDeep limit, rfl, rfl⟩
  | succ budget =>
    show readAbove _ p _ = readAbove _ p _ ∨ ∃ problem, readAbove _ p _ = _ ∧ readAbove _ p _ = _
    rcases readPrimary_onLine (reader limit budget) l t ts with h | ⟨problem, h, h'⟩
    · exact Or.inl (by rw [readAbove, readAbove, h])
    · exact Or.inr ⟨problem, by rw [readAbove, h], by rw [readAbove, h']⟩

end Expression

namespace Statement

theorem attempt_onLine (limit stop : Nat) (l : Bool) (t : Lexeme) (ts : List Lexeme) :
    attempt limit stop (t.onLine l) ts = attempt limit stop t ts := by
  have hkind : (t.onLine l).kind = t.kind := rfl
  cases ht : t.kind.opensStatement with
  | true =>
    have hparse : parse limit (t.onLine l) ts = parse limit t ts := by
      rcases TokenKind.opensStatement_iff.1 ht with hk | hk
      · rw [parse, parse, hkind, hk]
        rfl
      · rw [parse, parse, hkind, hk]
        rfl
    rw [attempt, attempt, hparse]
  | false =>
    have hp := parse_of_not_opensStatement limit ht ts
    have hp' := parse_of_not_opensStatement limit (hkind.symm ▸ ht) ts
    rcases Expression.reader_onLine limit limit .lowest l t ts with h | ⟨problem, h, h'⟩
    · rw [attempt, attempt, hp, hp', readExpression, readExpression, Expression.parse,
        Expression.parse, h]
      rfl
    · have hproblem : problem.isExpectation = false := (Expression.refused_of_parse_eq_error h).2
      have hresume : Failure.resume ⟨problem, t.onLine l :: ts⟩ =
          Failure.resume ⟨problem, t :: ts⟩ := by
        simp only [Failure.resume, hproblem, skipRefused, hkind, ht]
        rfl
      rw [attempt_of_parse_eq_error stop (hp.trans (readExpression_eq_error_iff.2 h)),
        attempt_of_parse_eq_error stop (hp'.trans (readExpression_eq_error_iff.2 h')), hresume]
      rfl

end Statement

/-- The attempts at a stream do not hang on whether its first lexeme starts a line. -/
theorem Program.outcomes_relined (limit stop : Nat) (l : Bool) (ts : List Lexeme) :
    outcomes limit stop (relined l ts) = outcomes limit stop ts := by
  cases ts with
  | nil => rfl
  | cons t ts => rw [relined, outcomes_cons, outcomes_cons, Statement.attempt_onLine]

/-! ## The seam -/

namespace Cursor

/-- Blanks in front of a text move its tokens, and may put the first of them on a line of its own. -/
theorem exists_lexemes_blanks {v : List Char} (hv : ∀ x ∈ v, isBlank x) (o : Nat) (bs : List Char) :
    ∃ l : Bool, (v.contains '\n' → l) ∧
      (Cursor.mk o (v ++ bs)).lexemes = relined l (Cursor.mk (o + byteLength v) bs).lexemes := by
  cases hc : (Cursor.mk (o + byteLength v) bs).next? with
  | none =>
    have hall : bs.dropWhile isBlank = [] := next?_eq_none_iff.1 hc
    have hnone : (Cursor.mk o (v ++ bs)).next? = none := by
      refine next?_eq_none_iff.2 ?_
      show (v ++ bs).dropWhile isBlank = []
      rw [List.dropWhile_append_of_pos hv, hall]
    refine ⟨true, fun _ => rfl, ?_⟩
    rw [lexemes_of_next?_eq_none hc, lexemes_of_next?_eq_none hnone]
    rfl
  | some r =>
    obtain ⟨t, c'⟩ := r
    obtain ⟨w, hw, hsplit, -, hstart, hstop, hoffset⟩ := exists_gap_of_next? hc
    have ht : t.token.Spelled := spelled_of_next? hc
    have hblank : ∀ x ∈ v ++ w, isBlank x := fun x hx =>
      (List.mem_append.1 hx).elim (hv x) (hw x)
    have hnext := next?_of_spelled (t := t.onLine ((v ++ w).contains '\n')) (o := o) ht hblank
      (fun d hd => absorbs_of_next? hc d hd) rfl
      (by rw [byteLength_append, ← Nat.add_assoc]; exact hstart) hstop
    have hrest : bs = w ++ t.token.literal.toList ++ c'.rest := hsplit
    have hnext : (Cursor.mk o (v ++ bs)).next? =
        some (t.onLine ((v ++ w).contains '\n'), ⟨c'.offset, c'.rest⟩) := by
      rw [hrest, hoffset, ← List.append_assoc, ← List.append_assoc]
      exact hnext
    refine ⟨(v ++ w).contains '\n', fun hl => ?_, ?_⟩
    · rw [List.contains_append, hl, Bool.true_or]
    · rw [lexemes_of_next?_eq_some hc, lexemes_of_next?_eq_some hnext]
      rfl

/-- Behind a text and blanks stand the tokens of the next text; its first token has come to start a line
if there is a line feed among the blanks. -/
theorem exists_lexemes_append_blanks (a b : String) {w : String} (hne : w ≠ "")
    (hw : ∀ x ∈ w.toList, isBlank x) :
    ∃ l : Bool, ('\n' ∈ w.toList → l) ∧
      (Cursor.ofString (a ++ w ++ b)).lexemes = (Cursor.ofString a).lexemes ++
        relined l ((Cursor.ofString b).lexemes.map (Lexeme.mapSpan (.shift (a ++ w).utf8ByteSize))) := by
  have htext : Cursor.ofString (a ++ w ++ b) =
      (Cursor.ofString a).append (w.toList ++ b.toList) := by
    simp [Cursor.ofString, Cursor.append]
  have hnonempty : w.toList ≠ [] := fun hnil => hne (String.toList_eq_nil_iff.1 hnil)
  have hseam : ∀ t ∈ (Cursor.ofString a).lexemes.getLast?,
      t.token.span.stop = (Cursor.ofString a).stop →
        ∀ d ∈ (w.toList ++ b.toList).head?, t.kind.absorbs d = false := by
    intro t _ _ d hd
    rw [List.head?_append_of_ne_nil _ hnonempty] at hd
    exact TokenKind.absorbs_of_isBlank _ (hw d (List.mem_of_head? hd))
  obtain ⟨o, v, hv, ho, heq⟩ := (Cursor.ofString a).lexemes_append hseam
  have hblank : ∀ x ∈ v ++ w.toList, isBlank x := fun x hx =>
    (List.mem_append.1 hx).elim (hv x) (hw x)
  obtain ⟨l, hl, hlex⟩ := exists_lexemes_blanks hblank o b.toList
  have hsize : o + byteLength (v ++ w.toList) = (a ++ w).utf8ByteSize := by
    rw [byteLength_append, ← Nat.add_assoc, ho, Cursor.stop_ofString, byteLength_toList,
      String.utf8ByteSize_append]
  have hmoved : (Cursor.mk (a ++ w).utf8ByteSize b.toList).lexemes =
      (Cursor.ofString b).lexemes.map (Lexeme.mapSpan (.shift (a ++ w).utf8ByteSize)) := by
    rw [← lexemes_shift, ofString, shift, Nat.zero_add]
  refine ⟨l, fun hline => hl ?_, ?_⟩
  · exact List.contains_iff_mem.2 (List.mem_append_right v hline)
  · rw [htext, heq, ← List.append_assoc, hlex, hsize, hmoved]

end Cursor

end MonkeyLang
