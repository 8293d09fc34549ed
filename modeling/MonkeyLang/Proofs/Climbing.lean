import MonkeyLang.Expression.Grammar
import MonkeyLang.Expression.Parse

/-!
# Reading an expression finds the one tree that the grammar gives

`Expression.parse` climbs through precedences, `Expression.Grouped` tells the shape of a tree without
any reading.  This file joins them: `read_eq_ok_iff` says that a reader that takes only operators above
`p` returns `e` with `rest` left exactly if the lexemes before `rest` are those of `e`, `e` is `Legal`
within the levels that the reader has, its top operator binds above `p`, and no operator above `p`
follows.

The forward half runs along the loop `extend`: what follows the left operand never binds more tightly
than that operand holds together, which is what makes the next tree grouped to the left.  The backward
half is an induction on the tree, and its statement must not fix what follows: behind a left operand
stands the operator that takes it.  So `read_append` says that the reader, having gone past the tokens
of `e`, is at the loop with `e` as its left operand, whatever comes next.
-/

namespace MonkeyLang.Expression

/-- An expression that can be read in `limit` levels: its nodes are made of the right tokens, its shape
is the one that precedence gives, and it is not nested too deeply. -/
structure Legal (limit : Nat) (e : Expression) : Prop where
  wellFormed : e.WellFormed
  grouped : e.Grouped
  depth_le : e.depth ≤ limit

/-- The operator at the top of an expression, if it is a binary one, binds above `p`. -/
def Above (p : Precedence) : Expression → Prop
  | binary _ operator _ => p < operator.kind.precedence
  | _ => True

/-- No operator that binds above `p` stands at the head of a stream. -/
def HaltsAt (p : Precedence) (ts : List Lexeme) : Prop := ∀ t ∈ ts.head?, t.kind.precedence ≤ p

theorem haltsAt_nil (p : Precedence) : HaltsAt p [] := by
  intro t ht
  cases ht

theorem legal_iff {limit : Nat} {e : Expression} :
    e.Legal limit ↔ e.WellFormed ∧ e.Grouped ∧ e.depth ≤ limit :=
  ⟨fun h => ⟨h.wellFormed, h.grouped, h.depth_le⟩, fun h => ⟨h.1, h.2.1, h.2.2⟩⟩

/-! ### Binding above a precedence -/

theorem above_iff {p : Precedence} (hp : p < .unary) (e : Expression) :
    e.Above p ↔ p < e.precedence := by
  cases e with
  | binary l op r => exact Iff.rfl
  | _ => exact iff_of_true trivial hp

theorem above_unary_iff (e : Expression) : e.Above .unary ↔ .unary ≤ e.precedence := by
  cases e with
  | binary l op r =>
    have h := op.kind.precedence_lt_unary
    simp only [Precedence.lt_iff, Precedence.le_iff, Above, precedence] at h ⊢
    omega
  | _ => exact iff_of_true trivial (Nat.le_refl _)

theorem above_of_le {p : Precedence} {e : Expression} (h : .unary ≤ e.precedence) : e.Above p := by
  cases e with
  | binary l op r => exact absurd rfl (unary_le_precedence_iff.1 h l op r)
  | _ => trivial

theorem above_lowest {e : Expression} (h : e.WellFormed) : e.Above .lowest := by
  cases e with
  | binary l op r => exact (TokenKind.isBinary_iff _).1 h.1
  | _ => trivial

/-- A left operand that holds together as tightly as its operator binds above whatever that does. -/
theorem Above.left {p : Precedence} {left right : Expression} {operator : Token}
    (h : (binary left operator right).Above p) (hle : operator.kind.precedence ≤ left.precedence) :
    left.Above p := by
  cases left with
  | binary l op r => exact Nat.lt_of_lt_of_le h hle
  | _ => trivial

theorem HaltsAt.le_precedence {p : Precedence} {e : Expression} {ts : List Lexeme}
    (h : HaltsAt p ts) (he : e.Above p) : HaltsAt e.precedence ts := by
  intro t ht
  cases e with
  | binary l op r => exact Nat.le_of_lt (Nat.lt_of_le_of_lt (h t ht) he)
  | _ => exact Nat.le_of_lt t.kind.precedence_lt_unary

theorem haltsAt_lowest_iff {ts : List Lexeme} :
    HaltsAt .lowest ts ↔ ∀ t ∈ ts.head?, t.kind.isBinary = false := by
  refine forall₂_congr fun t _ => ?_
  rw [← Precedence.not_lt, ← TokenKind.isBinary_iff, Bool.not_eq_true]

/-! ### The loop over the operators of one level -/

theorem isBinary_of_lt {p : Precedence} {kind : TokenKind} (h : p < kind.precedence) :
    kind.isBinary :=
  (TokenKind.isBinary_iff kind).2 (Nat.lt_of_le_of_lt (Nat.zero_le _) h)

theorem extend_of_haltsAt (deeper : OperandReader) {p : Precedence} (left : Expression)
    {ts : List Lexeme} (h : HaltsAt p ts) : extend deeper p left ts = .ok (left, ts) := by
  cases ts with
  | nil => rw [extend]
  | cons t rest =>
    rw [extend, if_neg]
    rintro ⟨hlt, -⟩
    exact Nat.not_lt.2 (h t rfl) hlt

theorem extend_cons (deeper : OperandReader) {p : Precedence} (left : Expression) {t : Lexeme}
    {ts rest : List Lexeme} {right : Expression} (ht : p < t.kind.precedence)
    (h : deeper.read t.kind.precedence ts = .ok (right, rest)) :
    extend deeper p left (t :: ts) = extend deeper p (binary left t.token right) rest := by
  rw [extend, if_pos ⟨ht, isBinary_of_lt ht⟩]
  split
  · rename_i hr
    rw [h] at hr
    cases hr
    rfl
  · rename_i hr
    rw [h] at hr
    cases hr

theorem extend_cons_error (deeper : OperandReader) {p : Precedence} (left : Expression) {t : Lexeme}
    {ts : List Lexeme} {f : Failure} (ht : p < t.kind.precedence)
    (h : deeper.read t.kind.precedence ts = .error f) :
    extend deeper p left (t :: ts) = .error f := by
  rw [extend, if_pos ⟨ht, isBinary_of_lt ht⟩]
  split
  · rename_i hr
    rw [h] at hr
    cases hr
  · rename_i hr
    rw [h] at hr
    cases hr
    rfl

/-- The loop ends at a lexeme that it does not take. -/
theorem haltsAt_cons {p : Precedence} {t : Lexeme}
    (h : ¬ (p < t.kind.precedence ∧ t.kind.isBinary)) (ts : List Lexeme) : HaltsAt p (t :: ts) := by
  intro u hu
  cases hu
  exact Nat.not_lt.1 fun hlt => h ⟨hlt, isBinary_of_lt hlt⟩

/-- Where the loop does not end, there is an operator for it to take. -/
theorem exists_cons_of_not_haltsAt {p : Precedence} {ts : List Lexeme} (h : ¬ HaltsAt p ts) :
    ∃ t us, ts = t :: us ∧ p < t.kind.precedence := by
  cases ts with
  | nil => exact absurd (haltsAt_nil p) h
  | cons t us =>
    refine ⟨t, us, rfl, Nat.not_le.1 fun hle => h ?_⟩
    intro u hu
    cases hu
    exact hle

/-! ### What a reader returns is in the grammar -/

/-- Each tree that a reader returns is the one of the lexemes that it took, within `limit` levels, and
reaches as far as it can. -/
def OperandReader.Sound (r : OperandReader) (limit : Nat) : Prop :=
  ∀ {p : Precedence} {ts rest : List Lexeme} {e : Expression}, r.read p ts = .ok (e, rest) →
    ∃ us, ts = us ++ rest ∧ us.map (·.token) = e.tokens ∧ e.Legal limit ∧ e.Above p ∧ HaltsAt p rest

theorem readPrimary_sound {deeper : OperandReader} {limit : Nat} (hd : deeper.Sound limit)
    {ts rest : List Lexeme} {e : Expression} (h : readPrimary deeper ts = .ok (e, rest)) :
    ∃ us, ts = us ++ rest ∧ us.map (·.token) = e.tokens ∧ e.Legal (limit + 1) ∧
      .unary ≤ e.precedence := by
  cases ts with
  | nil => cases h
  | cons t ts =>
    simp only [readPrimary] at h
    split at h
    · rename_i hk
      cases h
      exact ⟨[t], rfl, rfl, ⟨hk, trivial, Nat.le_add_left 1 limit⟩, Nat.le_refl _⟩
    · rename_i hk
      split at h
      · rename_i n hn
        cases h
        exact ⟨[t], rfl, rfl, ⟨⟨hk, hn⟩, trivial, Nat.le_add_left 1 limit⟩, Nat.le_refl _⟩
      · cases h
    · split at h
      · rename_i hu
        split at h
        · rename_i operand vs hr
          cases h
          obtain ⟨us, rfl, hus, hl, ha, -⟩ := hd hr
          refine ⟨t :: us, rfl, by rw [List.map_cons, hus, tokens], ⟨⟨hu, hl.wellFormed⟩, ?_, ?_⟩,
            Nat.le_refl _⟩
          · exact ⟨(above_unary_iff operand).1 ha, hl.grouped⟩
          · have := hl.depth_le
            rw [depth]
            omega
        · cases h
      · cases h

/-- The loop keeps that the left operand is legal and that what follows it does not bind more tightly
than it holds together. -/
theorem extend_sound {deeper : OperandReader} {limit : Nat} (hd : deeper.Sound limit)
    {p : Precedence} {left : Expression} {ts rest : List Lexeme} {e : Expression}
    (h : extend deeper p left ts = .ok (e, rest)) (hl : left.Legal (limit + 1))
    (ha : left.Above p) (hts : HaltsAt left.precedence ts) :
    ∃ us, ts = us ++ rest ∧ left.tokens ++ us.map (·.token) = e.tokens ∧ e.Legal (limit + 1) ∧
      e.Above p ∧ HaltsAt p rest := by
  fun_induction extend deeper p left ts with
  | case1 left =>
    cases h
    exact ⟨[], rfl, List.append_nil _, hl, ha, haltsAt_nil p⟩
  | case2 left t ts hc right vs hr ih =>
    obtain ⟨us, rfl, hus, hlr, har, hvs⟩ := hd hr
    have hop : t.kind.precedence < .unary := t.kind.precedence_lt_unary
    have hlegal : (binary left t.token right).Legal (limit + 1) := by
      refine ⟨⟨hc.2, hl.wellFormed, hlr.wellFormed⟩, ?_, ?_⟩
      · exact ⟨hts t rfl, (above_iff hop right).1 har, hl.grouped, hlr.grouped⟩
      · have hleft := hl.depth_le
        have hright := hlr.depth_le
        rw [depth]
        omega
    obtain ⟨ws, rfl, hws, he⟩ := ih h hlegal hc.1 hvs
    refine ⟨t :: us ++ ws, by simp, ?_, he⟩
    rw [← hws, tokens, List.map_append, List.map_cons, hus, List.append_assoc]
  | case3 left t ts hc f hr => cases h
  | case4 left t ts hc =>
    cases h
    exact ⟨[], rfl, List.append_nil _, hl, ha, haltsAt_cons hc ts⟩

theorem reader_sound (limit budget : Nat) : (reader limit budget).Sound budget := by
  induction budget with
  | zero =>
    intro p ts rest e h
    cases h
  | succ budget ih =>
    intro p ts rest e h
    have hread : readAbove (reader limit budget) p ts = .ok (e, rest) := h
    unfold readAbove at hread
    split at hread
    · rename_i left vs hprimary
      obtain ⟨us, rfl, hus, hl, hu⟩ := readPrimary_sound ih hprimary
      have hvs : HaltsAt left.precedence vs := fun t _ =>
        Nat.le_of_lt (Nat.lt_of_lt_of_le t.kind.precedence_lt_unary hu)
      obtain ⟨ws, rfl, hws, he⟩ := extend_sound ih hread hl (above_of_le hu) hvs
      exact ⟨us ++ ws, (List.append_assoc us ws rest).symm, by rw [List.map_append, hus, hws], he⟩
    · cases hread

/-! ### What is in the grammar is read -/

theorem readPrimary_name (deeper : OperandReader) {t : Lexeme} (ht : t.kind = .name)
    (rest : List Lexeme) : readPrimary deeper (t :: rest) = .ok (name t.token, rest) := by
  rw [readPrimary, ht]

theorem readPrimary_integer (deeper : OperandReader) {t : Lexeme} {n : Int}
    (ht : t.kind = .integer) (hn : Numeral.read? t.token.literal.toList = some n)
    (rest : List Lexeme) : readPrimary deeper (t :: rest) = .ok (integer t.token n, rest) := by
  rw [readPrimary, ht]
  simp only [hn]

theorem readPrimary_unary {deeper : OperandReader} {t : Lexeme} {ts rest : List Lexeme}
    {operand : Expression} (ht : t.kind.isUnary) (h : deeper.read .unary ts = .ok (operand, rest)) :
    readPrimary deeper (t :: ts) = .ok (unary t.token operand, rest) := by
  cases hk : t.kind with
  | operator o =>
    rw [hk] at ht
    simp only [readPrimary, hk, ht, h, if_true]
  | _ =>
    rw [hk] at ht
    cases ht

theorem reader_of_readPrimary {limit budget : Nat} {p : Precedence} {ts rest : List Lexeme}
    {left : Expression} (h : readPrimary (reader limit budget) ts = .ok (left, rest)) :
    (reader limit (budget + 1)).read p ts = extend (reader limit budget) p left rest := by
  show readAbove (reader limit budget) p ts = _
  rw [readAbove, h]

/-- Behind the tokens of `e` the reader is at its loop, with `e` as the left operand. -/
theorem read_append {limit budget : Nat} {p : Precedence} {e : Expression} {us : List Lexeme}
    (rest : List Lexeme) (hus : us.map (·.token) = e.tokens) (hl : e.Legal (budget + 1))
    (ha : e.Above p) (hrest : HaltsAt e.precedence rest) :
    (reader limit (budget + 1)).read p (us ++ rest) =
      extend (reader limit budget) p e rest := by
  induction e generalizing budget p us rest with
  | name token =>
    obtain ⟨t, rfl, rfl⟩ := List.map_eq_singleton_iff.1 hus
    exact reader_of_readPrimary (readPrimary_name _ hl.wellFormed rest)
  | integer token value =>
    obtain ⟨t, rfl, rfl⟩ := List.map_eq_singleton_iff.1 hus
    exact reader_of_readPrimary (readPrimary_integer _ hl.wellFormed.1 hl.wellFormed.2 rest)
  | unary operator operand ih =>
    obtain ⟨t, vs, rfl, rfl, hvs⟩ := List.map_eq_cons_iff.1 hus
    obtain ⟨hu, hg⟩ := hl.grouped
    have hdepth : 1 + operand.depth ≤ budget + 1 := hl.depth_le
    have hpos : 0 < operand.depth := operand.depth_pos
    obtain ⟨b, rfl⟩ := Nat.exists_eq_add_of_le' (show 1 ≤ budget by omega)
    have hlo : operand.Legal (b + 1) := ⟨hl.wellFormed.2, hg, by omega⟩
    have hao : operand.Above .unary := (above_unary_iff operand).2 hu
    have hhalt : HaltsAt .unary rest := fun t _ => Nat.le_of_lt t.kind.precedence_lt_unary
    have hread := ih rest hvs hlo hao (hhalt.le_precedence hao)
    rw [extend_of_haltsAt _ operand hhalt] at hread
    exact reader_of_readPrimary (readPrimary_unary hl.wellFormed.1 hread)
  | binary left operator right ihl ihr =>
    obtain ⟨vs, ws, rfl, hvs, hws⟩ := List.map_eq_append_iff.1 hus
    obtain ⟨t, xs, rfl, rfl, hxs⟩ := List.map_eq_cons_iff.1 hws
    obtain ⟨hleft, hright, hgl, hgr⟩ := hl.grouped
    have hdepth : max left.depth (1 + right.depth) ≤ budget + 1 := hl.depth_le
    have hpos : 0 < right.depth := right.depth_pos
    obtain ⟨b, rfl⟩ := Nat.exists_eq_add_of_le' (show 1 ≤ budget by omega)
    have hop : t.kind.precedence < .unary := t.kind.precedence_lt_unary
    -- The operator stands behind the left operand, and what follows the tree behind the right one.
    have hhr : HaltsAt t.kind.precedence rest := hrest
    have hhl : HaltsAt left.precedence (t :: (xs ++ rest)) := by
      intro u hu
      cases hu
      exact hleft
    have hal : left.Above p := Above.left ha hleft
    have har : right.Above t.kind.precedence := (above_iff hop right).2 hright
    have hll : left.Legal (b + 1 + 1) := ⟨hl.wellFormed.2.1, hgl, by omega⟩
    have hlr : right.Legal (b + 1) := ⟨hl.wellFormed.2.2, hgr, by omega⟩
    have hreadl := ihl (t :: (xs ++ rest)) hvs hll hal hhl
    have hreadr := ihr rest hxs hlr har (hhr.le_precedence har)
    rw [extend_of_haltsAt _ right hhr] at hreadr
    rw [List.append_assoc, List.cons_append, hreadl, extend_cons _ _ ha hreadr]

/-! ### Both halves -/

theorem read_eq_ok_iff {limit budget : Nat} {p : Precedence} {ts rest : List Lexeme}
    {e : Expression} : (reader limit budget).read p ts = .ok (e, rest) ↔
      ∃ us, ts = us ++ rest ∧ us.map (·.token) = e.tokens ∧ e.Legal budget ∧ e.Above p ∧
        HaltsAt p rest := by
  constructor
  · exact fun h => reader_sound limit budget h
  · rintro ⟨us, rfl, hus, hl, ha, hrest⟩
    obtain ⟨b, rfl⟩ := Nat.exists_eq_add_of_le' (Nat.le_trans e.depth_pos hl.depth_le)
    rw [read_append rest hus hl ha (hrest.le_precedence ha), extend_of_haltsAt _ e hrest]

theorem parse_eq_ok_iff {limit : Nat} {ts rest : List Lexeme} {e : Expression} :
    parse limit ts = .ok (e, rest) ↔
      ∃ us, ts = us ++ rest ∧ us.map (·.token) = e.tokens ∧ e.Legal limit ∧
        ∀ t ∈ rest.head?, t.kind.isBinary = false := by
  rw [parse, read_eq_ok_iff]
  constructor
  · rintro ⟨us, hts, hus, hl, -, hrest⟩
    exact ⟨us, hts, hus, hl, haltsAt_lowest_iff.1 hrest⟩
  · rintro ⟨us, hts, hus, hl, hrest⟩
    exact ⟨us, hts, hus, hl, above_lowest hl.wellFormed, haltsAt_lowest_iff.2 hrest⟩

end MonkeyLang.Expression
