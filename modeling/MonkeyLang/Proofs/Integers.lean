import Mathlib.Data.Nat.Digits.Defs
import MonkeyLang.Proofs.Excerpt
import MonkeyLang.Proofs.Readability

/-!
# Integers

An integer in a tree is the number that its digits denote, however many they are and however many zeros
lead them, and a numeral whose number is too great is an error and not another integer
(`integers_are_exact`).

The language has no numerals with a sign.  A negative integer is written with the operator `-` before the
numeral of its magnitude, and as the magnitude has to be an integer of the language by itself, the least
integer cannot be written so: its magnitude is one more than the greatest (`parse_toString_iff`).

What a text parses to that is a numeral, or a numeral behind the sign `-`, is told by `parse_numeral` and
`parse_minus_numeral`.
-/

namespace MonkeyLang

open Character

/-! ## Numerals -/

namespace Numeral

/-- The digits of a numeral as numbers, the last digit first. -/
def digitsFromLast (digits : List Char) : List Nat :=
  digits.reverse.map fun c => c.toNat - '0'.toNat

/-- The number, if it is an integer of the language. -/
def checked? (n : Nat) : Option Nat := if n ≤ greatest then some n else none

/-- The number with one more digit behind it, if no step on the way to it leaves the integers of the
language. -/
def push? (n : Nat) (c : Char) : Option Nat := do
  let tens ← checked? (10 * n)
  checked? (tens + (c.toNat - '0'.toNat))

/-- Reads a numeral digit by digit, and gives up at the first step that leaves the integers of the
language. -/
def accumulate? (digits : List Char) : Option Nat := digits.foldlM push? 0

theorem value_eq_ofDigits (digits : List Char) :
    value digits = Nat.ofDigits 10 (digitsFromLast digits) := by
  rw [digitsFromLast, Nat.ofDigits_eq_foldr, List.foldr_map, List.foldr_reverse, value,
    Nat.ofDigitChars]
  simp only [Nat.cast_id, Nat.add_comm]

/-- A number only grows with more digits behind it. -/
theorem le_ofDigitChars (digits : List Char) (n : Nat) : n ≤ Nat.ofDigitChars 10 digits n := by
  induction digits generalizing n with
  | nil => exact Nat.le_refl n
  | cons c cs ih =>
    rw [Nat.ofDigitChars_cons]
    have h := ih (10 * n + (c.toNat - '0'.toNat))
    omega

theorem checked?_of_le {n : Nat} (h : (n : Int) ≤ greatest) : checked? n = some n := if_pos h

theorem checked?_of_lt {n : Nat} (h : greatest < n) : checked? n = none := if_neg (Int.not_le.2 h)

theorem push?_eq (n : Nat) (c : Char) : push? n c = checked? (10 * n + (c.toNat - '0'.toNat)) := by
  by_cases h : (10 * n : Nat) ≤ greatest
  · rw [push?, checked?_of_le h]
    rfl
  · rw [push?, checked?_of_lt (Int.not_le.1 h), checked?_of_lt (by omega)]
    rfl

/-- The check at each step fails exactly if a check of the whole number would. -/
theorem foldlM_push? {n : Nat} (hn : (n : Int) ≤ greatest) (digits : List Char) :
    digits.foldlM push? n = checked? (Nat.ofDigitChars 10 digits n) := by
  induction digits generalizing n with
  | nil => exact (checked?_of_le hn).symm
  | cons c cs ih =>
    rw [List.foldlM_cons, push?_eq, Nat.ofDigitChars_cons]
    by_cases h : (10 * n + (c.toNat - '0'.toNat) : Nat) ≤ greatest
    · rw [checked?_of_le h]
      exact ih h
    · have hle := le_ofDigitChars cs (10 * n + (c.toNat - '0'.toNat))
      rw [checked?_of_lt (Int.not_le.1 h), checked?_of_lt (by omega)]
      rfl

theorem accumulate?_eq (digits : List Char) : accumulate? digits = checked? (value digits) :=
  foldlM_push? (by decide) digits

end Numeral

/-! ## Reading a numeral -/

namespace Cursor

/-- A token that stands at the very place is the next one. -/
theorem lexemes_of_spelled {kind : TokenKind} {literal : String} {o : Nat}
    (ht : (Token.ofText kind literal o).Spelled) (bs : List Char)
    (hbs : ∀ d ∈ bs.head?, kind.absorbs d = false) :
    (Cursor.mk o (literal.toList ++ bs)).lexemes =
      ⟨.ofText kind literal o, false⟩ :: (Cursor.mk (o + literal.utf8ByteSize) bs).lexemes := by
  have hstop : (Token.ofText kind literal o).span.stop = o + byteLength literal.toList := by
    rw [byteLength_toList]
    rfl
  have hnext := next?_of_spelled (t := ⟨.ofText kind literal o, false⟩) (w := []) ht
    (List.forall_mem_nil _) hbs rfl rfl hstop
  exact lexemes_of_next?_eq_some hnext

end Cursor

/-! ## A numeral that is too great -/

theorem Expression.reader_of_read?_eq_none (limit budget : Nat) (p : Precedence) {t : Lexeme}
    (ht : t.kind = .integer) (hn : Numeral.read? t.token.literal.toList = none) (ts : List Lexeme) :
    (reader limit (budget + 1)).read p (t :: ts) = .error ⟨.integerTooGreat, t :: ts⟩ := by
  show readAbove (reader limit budget) p (t :: ts) = _
  simp only [readAbove, readPrimary, ht, hn]

/-- An attempt that fails at a numeral is the last if nothing is behind the numeral. -/
theorem Program.outcomes_of_integerTooGreat {limit : Nat} (stop : Nat) {u t : Lexeme}
    {ts : List Lexeme} (ht : t.kind = .integer)
    (h : Statement.parse limit u ts = .error ⟨.integerTooGreat, [t]⟩) :
    outcomes limit stop (u :: ts) = [.error ⟨.integerTooGreat, t.token⟩] := by
  have hresume : Failure.resume ⟨.integerTooGreat, [t]⟩ = [] := by
    simp [Failure.resume, Problem.isExpectation, skipRefused, skipStatement, ht,
      TokenKind.opensStatement]
  rw [outcomes_cons_of_error stop h, hresume, outcomes_nil]
  rfl

/-! ## Texts that are an integer -/

section Numerals

variable {digits : String}

/-- The sign `-` at the start of a text. -/
def minusToken : Token := .ofText (.operator .minus) "-" 0

/-- The numeral with the given digits, at the offset `o`. -/
def numeralToken (digits : String) (o : Nat) : Token := .ofText .integer digits o

theorem numeralToken_spelled (h : TokenKind.integer.Admits digits) (o : Nat) :
    (numeralToken digits o).Spelled :=
  Token.WellSpelled.spelled (t := numeralToken digits o) h (by simp [numeralToken, Token.ofText])

theorem lexemes_numeral (h : TokenKind.integer.Admits digits) (o : Nat) :
    (Cursor.mk o digits.toList).lexemes = [⟨numeralToken digits o, false⟩] := by
  have hone := Cursor.lexemes_of_spelled (numeralToken_spelled h o) [] (by simp)
  have hend : (Cursor.mk (o + digits.utf8ByteSize) []).lexemes = [] :=
    Cursor.lexemes_of_next?_eq_none (Cursor.next?_eq_none_iff.2 rfl)
  rw [List.append_nil, hend] at hone
  exact hone

theorem lexemes_minus_numeral (h : TokenKind.integer.Admits digits) :
    (Cursor.ofString ("-" ++ digits)).lexemes =
      [⟨minusToken, false⟩, ⟨numeralToken digits 1, false⟩] := by
  have hminus : minusToken.Spelled := ⟨'-', [], by decide, by decide, by decide⟩
  have hone := Cursor.lexemes_of_spelled hminus digits.toList fun _ _ => rfl
  rw [← String.toList_append, show 0 + "-".utf8ByteSize = 1 from rfl, lexemes_numeral h] at hone
  exact hone

/-- A numeral parses to the integer that it denotes, or to no statement and one error. -/
theorem parse_numeral (settings : Settings) (h : TokenKind.integer.Admits digits)
    (hlimit : 1 ≤ settings.maxDepth) :
    parse digits settings =
      match Numeral.read? digits.toList with
      | some n =>
        ⟨⟨[.expression (numeralToken digits 0) (.integer (numeralToken digits 0) n)]⟩, []⟩
      | none => ⟨⟨[]⟩, [⟨.integerTooGreat, numeralToken digits 0⟩]⟩ := by
  have hlex : (Cursor.ofString digits).lexemes = [⟨numeralToken digits 0, false⟩] :=
    lexemes_numeral h 0
  rw [parse_eq_ofOutcomes, hlex]
  cases hn : Numeral.read? digits.toList with
  | some n =>
    let s : Statement := .expression (numeralToken digits 0) (.integer (numeralToken digits 0) n)
    have hw : Program.WrittenWith [s] [numeralToken digits 0] :=
      .bare (.expression rfl) (by simp) .nil
    have hl : ∀ s' ∈ [s], s'.value.Legal settings.maxDepth :=
      List.forall_mem_singleton.2 ⟨⟨rfl, hn⟩, trivial, hlimit⟩
    exact Parse.ofOutcomes_eq_iff.2 (Program.outcomes_of_writtenWith hw hl)
  | none =>
    obtain ⟨budget, hbudget⟩ := Nat.exists_eq_add_of_le' hlimit
    have hparse : Statement.parse settings.maxDepth ⟨numeralToken digits 0, false⟩ [] =
        .error ⟨.integerTooGreat, [⟨numeralToken digits 0, false⟩]⟩ := by
      rw [Statement.parse_of_not_opensStatement (t := ⟨numeralToken digits 0, false⟩) _ rfl,
        Statement.readExpression_eq_error_iff, Expression.parse, hbudget]
      exact Expression.reader_of_read?_eq_none (budget + 1) budget .lowest
        (t := ⟨numeralToken digits 0, false⟩) rfl hn []
    rw [Program.outcomes_of_integerTooGreat _ rfl hparse]
    rfl

/-- A numeral behind the sign `-` parses to the sign before the integer that it denotes, or to no
statement and one error. -/
theorem parse_minus_numeral (settings : Settings) (h : TokenKind.integer.Admits digits)
    (hlimit : 2 ≤ settings.maxDepth) :
    parse ("-" ++ digits) settings =
      match Numeral.read? digits.toList with
      | some n =>
        ⟨⟨[.expression minusToken (.unary minusToken (.integer (numeralToken digits 1) n))]⟩, []⟩
      | none => ⟨⟨[]⟩, [⟨.integerTooGreat, numeralToken digits 1⟩]⟩ := by
  rw [parse_eq_ofOutcomes, lexemes_minus_numeral h]
  cases hn : Numeral.read? digits.toList with
  | some n =>
    let s : Statement :=
      .expression minusToken (.unary minusToken (.integer (numeralToken digits 1) n))
    have hw : Program.WrittenWith [s] [minusToken, numeralToken digits 1] :=
      .bare (.expression rfl) (by simp) .nil
    have hl : ∀ s' ∈ [s], s'.value.Legal settings.maxDepth :=
      List.forall_mem_singleton.2 ⟨⟨rfl, rfl, hn⟩, ⟨Nat.le_refl _, trivial⟩, hlimit⟩
    exact Parse.ofOutcomes_eq_iff.2 (Program.outcomes_of_writtenWith hw hl)
  | none =>
    obtain ⟨budget, hbudget⟩ := Nat.exists_eq_add_of_le' hlimit
    have hparse : Statement.parse settings.maxDepth ⟨minusToken, false⟩
        [⟨numeralToken digits 1, false⟩] =
          .error ⟨.integerTooGreat, [⟨numeralToken digits 1, false⟩]⟩ := by
      have hoperand := Expression.reader_of_read?_eq_none (budget + 2) budget .unary
        (t := ⟨numeralToken digits 1, false⟩) rfl hn []
      rw [Statement.parse_of_not_opensStatement (t := ⟨minusToken, false⟩) _ rfl,
        Statement.readExpression_eq_error_iff, Expression.parse, hbudget]
      show Expression.readAbove (Expression.reader (budget + 2) (budget + 1)) .lowest _ = _
      rw [Expression.readAbove, Expression.readPrimary_cons_unary (t := ⟨minusToken, false⟩) _ rfl,
        hoperand]
    rw [Program.outcomes_of_integerTooGreat _ rfl hparse]
    rfl

end Numerals

/-- **Integers are exact.**  Wherever an integer stands in a tree, and be there errors or not, it is the
number that the digits of its token denote, and it is an integer of the language; reading the digits from
the left with a check at each step finds the same number.  A text that is a run of digits parses to the
integer of its value, or else to no statement and one error that spans the whole run. -/
theorem integers_are_exact (settings : Settings) :
    (∀ source, ∀ s ∈ (parse source settings).program.statements, ∀ t n,
      Expression.integer t n ∈ s.expressions →
        (t.literal ≠ "" ∧ ∀ c ∈ t.literal.toList, isDigit c) ∧
        n = (Nat.ofDigits 10 (Numeral.digitsFromLast t.literal.toList) : Nat) ∧
        n ≤ Numeral.greatest ∧
        Numeral.accumulate? t.literal.toList = some n.toNat) ∧
    ∀ digits : String, digits ≠ "" → (∀ c ∈ digits.toList, isDigit c) → 1 ≤ settings.maxDepth →
      let n : Int := (Nat.ofDigits 10 (Numeral.digitsFromLast digits.toList) : Nat)
      (n ≤ Numeral.greatest → parse digits settings =
        ⟨⟨[.expression (numeralToken digits 0) (.integer (numeralToken digits 0) n)]⟩, []⟩) ∧
      (Numeral.greatest < n → (parse digits settings).program.statements = [] ∧
        ∃ d, (parse digits settings).diagnostics = [d] ∧ d.kind = .malformed ∧
          d.span = ⟨0, digits.utf8ByteSize⟩) := by
  constructor
  · intro source s hs t n hmem
    obtain ⟨row, hrow, hw, hl⟩ := exists_writtenWith_of_mem_statements hs
    obtain ⟨hpart, hlegal⟩ := hw.infix_of_mem_expressions hl hmem
    obtain ⟨hkind, hread⟩ := hlegal.wellFormed
    obtain ⟨u, hu, rfl⟩ := List.mem_map.1 ((hpart.trans hrow).subset (List.mem_singleton_self t))
    obtain ⟨hvalue, hle⟩ := Numeral.read?_eq_some_iff.1 hread
    refine ⟨((Cursor.spelled_of_mem_lexemes hu).kind_eq_iff .integer).1 hkind, ?_, hle, ?_⟩
    · rw [← Numeral.value_eq_ofDigits, hvalue]
    · rw [hvalue] at hle ⊢
      rw [Numeral.accumulate?_eq, Numeral.checked?_of_le hle, Int.toNat_natCast]
  · intro digits hne hdigits hlimit n
    have hparse := parse_numeral settings ⟨hne, hdigits⟩ hlimit
    have hvalue : n = Numeral.value digits.toList :=
      congrArg Nat.cast (Numeral.value_eq_ofDigits digits.toList).symm
    constructor
    · intro hle
      rw [hparse, Numeral.read?_eq_some_iff.2 ⟨hvalue, hle⟩]
    · intro hlt
      rw [hparse, Numeral.read?_eq_none_iff.2 (hvalue ▸ hlt)]
      refine ⟨rfl, _, rfl, rfl, ?_⟩
      show Span.mk 0 (0 + digits.utf8ByteSize) = _
      rw [Nat.zero_add]

/-- Zeros in front of a numeral count for nothing: they make no number too great, and keep none from being
so. -/
theorem integers_are_exact_leading_zeros :
    let t : Token := .ofText .integer "000000000000000000000042" 3
    let s : Statement := .expression (.ofText .name "x" 0)
      (.binary (.name (.ofText .name "x" 0)) (.ofText (.operator .plus) "+" 1) (.integer t 42))
    s ∈ (parse "x+ 000000000000000000000042" ⟨2⟩).program.statements ∧
      Numeral.accumulate? t.literal.toList = some 42 ∧
      ∃ d, (parse "009223372036854775808" ⟨2⟩).diagnostics = [d] ∧ d.kind = .malformed ∧
        d.span = ⟨0, 21⟩ := by
  intro t s
  have hs : s ∈ (parse "x+ 000000000000000000000042" ⟨2⟩).program.statements := by
    decide +kernel
  obtain ⟨htree, htext⟩ := integers_are_exact ⟨2⟩
  obtain ⟨-, -, -, haccumulate⟩ := htree _ s hs t 42 (by decide)
  have hdigits : ∀ c ∈ "009223372036854775808".toList, isDigit c :=
    List.all_eq_true.1 (by decide)
  obtain ⟨-, herror⟩ := htext "009223372036854775808" (by decide) hdigits (by decide)
  exact ⟨hs, haccumulate, (herror (by decide +kernel)).2⟩

/-! ## Integers with a sign -/

/-- The statement is the integer `n`, written as its numeral if it is not negative, and otherwise as the
sign `-` before the numeral of its magnitude. -/
def Statement.Writes (n : Int) : Statement → Prop
  | expression _ (.integer _ m) => 0 ≤ n ∧ m = n
  | expression _ (.unary operator (.integer _ m)) =>
    n < 0 ∧ operator.kind = .operator .minus ∧ -m = n
  | _ => False

theorem Numeral.admits_repr (n : Nat) : TokenKind.integer.Admits n.repr := by
  have hdigits : ∀ c ∈ n.repr.toList, isDigit c := by
    rw [Nat.toList_repr]
    exact fun c hc => Nat.isDigit_of_mem_toDigits (by decide) (by decide) hc
  refine ⟨fun hempty => Nat.toDigits_ne_nil (n := n) (b := 10) ?_, hdigits⟩
  rw [← Nat.toList_repr, hempty]
  rfl

theorem Numeral.read?_repr (n : Nat) :
    read? n.repr.toList = if n ≤ greatest then some (n : Int) else none := by
  rw [read?, Nat.toList_repr, value_toDigits]

/-- **All integers but the least can be written.**  The decimal text of `n` parses to the integer `n` and
nothing else exactly if `n` is greater than the least integer of the language and not greater than the
greatest.  Otherwise it parses to no statement and one error, at the numeral of the magnitude of `n`. -/
theorem parse_toString_iff (n : Int) :
    ((∃ s, parse (toString n) = ⟨⟨[s]⟩, []⟩ ∧ s.Writes n) ↔
        Numeral.least < n ∧ n ≤ Numeral.greatest) ∧
      (¬ (Numeral.least < n ∧ n ≤ Numeral.greatest) → parse (toString n) = ⟨⟨[]⟩,
        [⟨.integerTooGreat, numeralToken n.natAbs.repr (if n < 0 then 1 else 0)⟩]⟩) := by
  cases n with
  | ofNat m =>
    have hparse := parse_numeral {} (Numeral.admits_repr m) (by decide)
    rw [Numeral.read?_repr] at hparse
    by_cases h : m ≤ Numeral.greatest
    · rw [if_pos h] at hparse
      have hleast : Numeral.least < m := by rw [Numeral.least]; omega
      exact ⟨iff_of_true ⟨_, hparse, Int.natCast_nonneg m, rfl⟩ ⟨hleast, h⟩,
        fun hn => absurd ⟨hleast, h⟩ hn⟩
    · rw [if_neg h] at hparse
      refine ⟨iff_of_false ?_ fun hn => h hn.2, fun _ => hparse⟩
      rintro ⟨s, hs, -⟩
      cases hparse.symm.trans hs
  | negSucc m =>
    have hparse := parse_minus_numeral {} (Numeral.admits_repr (m + 1)) (by decide)
    have hneg : Int.negSucc m < 0 := Int.negSucc_lt_zero m
    have hgreatest : Int.negSucc m ≤ Numeral.greatest := by rw [Numeral.greatest]; omega
    rw [Numeral.read?_repr] at hparse
    by_cases h : (m + 1 : Nat) ≤ Numeral.greatest
    · rw [if_pos h] at hparse
      have hleast : Numeral.least < Int.negSucc m := by
        rw [Numeral.least]
        rw [Numeral.greatest] at h
        omega
      exact ⟨iff_of_true ⟨_, hparse, hneg, rfl, rfl⟩ ⟨hleast, hgreatest⟩,
        fun hn => absurd ⟨hleast, hgreatest⟩ hn⟩
    · rw [if_neg h] at hparse
      have hleast : ¬ Numeral.least < Int.negSucc m := by
        rw [Numeral.least]
        rw [Numeral.greatest] at h
        omega
      refine ⟨iff_of_false ?_ fun hn => hleast hn.1, fun _ => ?_⟩
      · rintro ⟨s, hs, -⟩
        cases hparse.symm.trans hs
      · rw [if_pos hneg]
        exact hparse

/-- The least integer of the language cannot be written, though the hint on integers that are too great
names it as one that can. -/
theorem not_parse_toString_least :
    ¬ ∀ n : Int, Numeral.least ≤ n → n ≤ Numeral.greatest →
      ∃ s, parse (toString n) = ⟨⟨[s]⟩, []⟩ ∧ s.Writes n := by
  intro h
  obtain ⟨s, hs, -⟩ := h Numeral.least (by decide) (by decide)
  have herrors : (parse (toString Numeral.least)).errors ≠ [] := by decide +kernel
  rw [hs] at herrors
  exact herrors rfl

end MonkeyLang
