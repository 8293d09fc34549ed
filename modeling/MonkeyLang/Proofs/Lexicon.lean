import MonkeyLang.Proofs.Scanning

/-!
# Which texts are tokens

The scan of a text compares characters, the tables of the vocabulary list spellings.  This file says
that the two agree.  `TokenKind.Admits` tells which texts the tokens of a kind have, by the tables and
the classes of characters alone, and a token is of a kind exactly if the kind admits its text.  Of all
texts that stand at a place and that some kind admits, the token there has the longest
(`longest_match_of_mem_tokens`).

First the characters that the scan is told to look for are compared with the tables: each of them is
spelled there as the kind that it begins (`Onset.spelling?_of_ofChar_eq_single`,
`Onset.spelling_of_ofChar_eq_pair`), and every other character is in no table
(`Onset.ofChar_eq_illegal_iff`).  The rest follows from one fact about the cut at the head of a text: the cut
takes the whole text exactly if a kind admits it, and it is then of that kind (`Munch.ofCons_eq_iff`).  So no
text has two kinds, and a longer text at the same place would have been cut off whole.
-/

namespace MonkeyLang

open Character

/-- The tokens of the kind have this text: the spelling, for a word or a symbol of the vocabulary. -/
def TokenKind.Admits : TokenKind → String → Prop
  | keyword k, text => text = k.spelling
  | operator o, text => text = o.spelling
  | punctuation p, text => text = p.spelling
  | name, text =>
    text ≠ "" ∧ (∀ c ∈ text.toList, isLetter c) ∧ Keyword.ofSpelling? text = none
  | integer, text => text ≠ "" ∧ ∀ c ∈ text.toList, isDigit c
  | illegal, text =>
    ∃ c, text = String.singleton c ∧ isBlank c = false ∧ isLetter c = false ∧ isDigit c = false ∧
      Operator.ofSpelling? text = none ∧ Punctuation.ofSpelling? text = none
  | endOfText, text => text = ""

theorem TokenKind.admits_empty_iff {kind : TokenKind} : kind.Admits "" ↔ kind = endOfText := by
  cases kind with
  | keyword k => cases k <;> simp [Admits, Keyword.spelling]
  | operator o => cases o <;> simp [Admits, Operator.spelling]
  | punctuation p => cases p <;> simp [Admits, Punctuation.spelling]
  | illegal =>
    have hne : illegal ≠ endOfText := by decide
    refine iff_of_false ?_ hne
    rintro ⟨c, hc, -⟩
    have hlength := congrArg String.length hc
    simp at hlength
  | _ => simp [Admits]

/-! ## The dispatch and the tables -/

namespace Onset

variable {c : Char}

/-- The two operators that a character begins are spelled as that character, alone and with the sign `=`
behind it. -/
theorem spelling_of_ofChar_eq_pair {simple compound : Operator}
    (h : ofChar c = .pair simple compound) :
    simple.spelling = String.ofList [c] ∧ compound.spelling = String.ofList [c, '='] := by
  rcases ofChar_eq_pair_iff.1 h with ⟨rfl, rfl, rfl⟩ | ⟨rfl, rfl, rfl⟩ <;> decide

/-- A character that is a token by itself is the spelling of the token's kind, unless it is illegal. -/
theorem spelling?_of_ofChar_eq_single {kind : TokenKind} (h : ofChar c = .single kind)
    (hkind : kind ≠ .illegal) : kind.spelling? = some (String.ofList [c]) := by
  unfold ofChar at h
  split at h
  case h_1 | h_2 => cases h
  case h_15 =>
    split at h
    · cases h
    · split at h
      · cases h
      · cases h
        exact absurd rfl hkind
  all_goals
    cases h
    decide

/-- A character is an illegal token exactly if it is in no class and spells nothing of the vocabulary. -/
theorem ofChar_eq_illegal_iff : ofChar c = .single .illegal ↔
    isLetter c = false ∧ isDigit c = false ∧ Operator.ofSpelling? (String.ofList [c]) = none ∧
      Punctuation.ofSpelling? (String.ofList [c]) = none := by
  constructor
  · intro h
    have hspelled {text : String} (heq : text = String.ofList [c]) : text.toList = [c] := by
      rw [heq, String.toList_ofList]
    refine ⟨?_, ?_, ?_, ?_⟩
    · refine Bool.eq_false_iff.2 fun hl => ?_
      rw [ofChar_of_isLetter hl] at h
      cases h
    · refine Bool.eq_false_iff.2 fun hd => ?_
      rw [ofChar_of_isDigit hd] at h
      cases h
    · refine Option.eq_none_iff_forall_ne_some.2 fun o ho => ?_
      have htext := hspelled (Operator.ofSpelling?_eq_some_iff.1 ho)
      cases o <;> cases htext <;> cases h
    · refine Option.eq_none_iff_forall_ne_some.2 fun p hp => ?_
      have htext := hspelled (Punctuation.ofSpelling?_eq_some_iff.1 hp)
      cases p <;> cases htext <;> cases h
  · rintro ⟨hletter, hdigit, ho, hp⟩
    unfold ofChar
    split
    case h_15 => rw [if_neg (Bool.eq_false_iff.1 hletter), if_neg (Bool.eq_false_iff.1 hdigit)]
    -- Every character that is named in the dispatch is in one of the tables.
    case h_9 | h_10 | h_11 | h_12 | h_13 | h_14 => exact absurd hp (by decide)
    all_goals exact absurd ho (by decide)

end Onset

theorem TokenKind.admits_of_spelling? {kind : TokenKind} {text : String}
    (h : kind.spelling? = some text) : kind.Admits text := by
  cases kind with
  | keyword k | operator o | punctuation p => exact (Option.some.inj h).symm
  | _ => cases h

/-! ## The cut at the head of a text -/

namespace Munch

/-- The kind of the token at the head of a text admits the token's text. -/
theorem admits_ofCons {c : Char} (hc : isBlank c = false) (cs : List Char) :
    (ofCons c cs).kind.Admits (String.ofList (ofCons c cs).literal) := by
  have hrun {p : Char → Bool} (hp : p c) : ∀ x ∈ c :: cs.takeWhile p, p x :=
    List.forall_mem_cons.2 ⟨hp, fun x hx => List.all_eq_true.1 List.all_takeWhile x hx⟩
  have hne (l : List Char) : String.ofList (c :: l) ≠ "" := by
    intro h
    have hnil := congrArg String.toList h
    rw [String.toList_ofList] at hnil
    cases hnil
  cases ho : Onset.ofChar c with
  | word =>
    have hl := Onset.isLetter_of_ofChar_eq_word ho
    simp only [ofCons_of_word _ ho, word]
    cases hk : Keyword.ofSpelling? (String.ofList (c :: cs.takeWhile isLetter)) with
    | some k =>
      rw [← Keyword.ofSpelling?_eq_some_iff.1 hk, TokenKind.ofWord_spelling]
      rfl
    | none =>
      rw [TokenKind.ofWord_eq_name_iff.2 hk]
      exact ⟨hne _, by rw [String.toList_ofList]; exact hrun hl, hk⟩
  | numeral =>
    have hd := Onset.isDigit_of_ofChar_eq_numeral ho
    simp only [ofCons_of_numeral _ ho, numeral]
    exact ⟨hne _, by rw [String.toList_ofList]; exact hrun hd⟩
  | pair simple compound =>
    obtain ⟨hsimple, hcompound⟩ := Onset.spelling_of_ofChar_eq_pair ho
    simp only [ofCons_of_pair _ ho, pair]
    split
    · exact hcompound.symm
    · exact hsimple.symm
  | single kind =>
    simp only [ofCons_of_single _ ho]
    by_cases hkind : kind = .illegal
    · subst hkind
      obtain ⟨hletter, hdigit, hnone⟩ := Onset.ofChar_eq_illegal_iff.1 ho
      exact ⟨c, String.singleton_eq_ofList.symm, hc, hletter, hdigit, hnone⟩
    · exact TokenKind.admits_of_spelling? (Onset.spelling?_of_ofChar_eq_single ho hkind)

/-- A spelling of the vocabulary is cut off whole. -/
theorem ofCons_of_spelling? {kind : TokenKind} {c : Char} {cs : List Char}
    (h : kind.spelling? = some (String.ofList (c :: cs))) : ofCons c cs = ⟨kind, c :: cs, []⟩ := by
  have hcut : ∃ d ds, c :: cs = d :: ds ∧ ofCons d ds = ⟨kind, d :: ds, []⟩ := by
    have htext : (kind.spelling?).map String.toList = some (c :: cs) := by
      rw [h, Option.map_some, String.toList_ofList]
    cases kind with
    | keyword k => cases k <;> exact ⟨_, _, (Option.some.inj htext).symm, by decide⟩
    | operator o => cases o <;> exact ⟨_, _, (Option.some.inj htext).symm, by decide⟩
    | punctuation p => cases p <;> exact ⟨_, _, (Option.some.inj htext).symm, by decide⟩
    | _ => cases h
  obtain ⟨d, ds, heq, hcut⟩ := hcut
  obtain ⟨rfl, rfl⟩ := List.cons.inj heq
  exact hcut

/-- A text that a kind admits is cut off whole, as a token of that kind. -/
theorem ofCons_of_admits {kind : TokenKind} {c : Char} {cs : List Char}
    (h : kind.Admits (String.ofList (c :: cs))) : ofCons c cs = ⟨kind, c :: cs, []⟩ := by
  have hwhole {p : Char → Bool} (hp : ∀ x ∈ cs, p x) :
      cs.takeWhile p = cs ∧ cs.dropWhile p = [] :=
    ⟨List.takeWhile_eq_self_iff.2 hp, List.dropWhile_eq_nil_iff.2 hp⟩
  cases kind with
  | keyword k => exact ofCons_of_spelling? (congrArg some h.symm)
  | operator o => exact ofCons_of_spelling? (congrArg some h.symm)
  | punctuation p => exact ofCons_of_spelling? (congrArg some h.symm)
  | name =>
    obtain ⟨-, hrun, hk⟩ := h
    rw [String.toList_ofList] at hrun
    obtain ⟨hc, hcs⟩ := List.forall_mem_cons.1 hrun
    rw [ofCons_of_word _ (Onset.ofChar_of_isLetter hc), word, (hwhole hcs).1, (hwhole hcs).2,
      TokenKind.ofWord_eq_name_iff.2 hk]
  | integer =>
    obtain ⟨-, hrun⟩ := h
    rw [String.toList_ofList] at hrun
    obtain ⟨hc, hcs⟩ := List.forall_mem_cons.1 hrun
    rw [ofCons_of_numeral _ (Onset.ofChar_of_isDigit hc), numeral, (hwhole hcs).1, (hwhole hcs).2]
  | illegal =>
    obtain ⟨d, hd, -, hletter, hdigit, ho, hp⟩ := h
    rw [String.singleton_eq_ofList] at hd
    obtain ⟨rfl, rfl⟩ := List.cons.inj (String.ofList_injective hd)
    exact ofCons_of_single _ (Onset.ofChar_eq_illegal_iff.2 ⟨hletter, hdigit, ho, hp⟩)
  | endOfText =>
    have hnil := congrArg String.toList h
    rw [String.toList_ofList] at hnil
    cases hnil

/-- A text is one token of a kind exactly if the kind admits it. -/
theorem ofCons_eq_iff {kind : TokenKind} {c : Char} {cs : List Char} (hc : isBlank c = false) :
    ofCons c cs = ⟨kind, c :: cs, []⟩ ↔ kind.Admits (String.ofList (c :: cs)) := by
  refine ⟨fun h => ?_, ofCons_of_admits⟩
  have hadmits := admits_ofCons hc cs
  rwa [h] at hadmits

end Munch

/-! ## One token -/

namespace Token.Spelled

variable {t : Token}

/-- A token is of the one kind that admits its text. -/
theorem kind_eq_iff (h : t.Spelled) (kind : TokenKind) : t.kind = kind ↔ kind.Admits t.literal := by
  obtain ⟨c, cs, hc, hlit, hcut⟩ := h
  have htext : t.literal = String.ofList (c :: cs) := by rw [← hlit, String.ofList_toList]
  rw [htext, ← Munch.ofCons_eq_iff hc, hcut]
  constructor
  · rintro rfl
    rfl
  · intro hkind
    exact congrArg Munch.kind hkind

/-- Where a token does not absorb what is behind it, no kind admits a longer text at its place. -/
theorem length_le (h : t.Spelled) {bs : List Char}
    (hbs : ∀ d ∈ bs.head?, t.kind.absorbs d = false) {l m : List Char}
    (hl : t.literal.toList ++ bs = l ++ m) {kind : TokenKind}
    (hkind : kind.Admits (String.ofList l)) : l.length ≤ t.literal.toList.length := by
  obtain ⟨c, cs, -, hlit, hcut⟩ := h
  rcases List.append_eq_append_iff.1 hl with ⟨more, rfl, rfl⟩ | ⟨more, hshort, -⟩
  · -- The longer text would be cut off whole, and the cut is behind the token.
    have hbehind : Munch.ofCons c (cs ++ more) = ⟨t.kind, c :: cs, more⟩ := by
      have hhalt : (Munch.ofCons c cs).rest = [] →
          ∀ d ∈ more.head?, (Munch.ofCons c cs).kind.absorbs d = false := by
        intro _ d hd
        rw [hcut]
        refine hbs d ?_
        rw [List.head?_append, Option.mem_def.1 hd]
        rfl
      rw [Munch.ofCons_append hhalt, hcut, List.nil_append]
    rw [hlit, List.cons_append] at hkind
    have hwhole := Munch.ofCons_of_admits hkind
    rw [hbehind] at hwhole
    have hnil : more = [] := congrArg Munch.rest hwhole
    rw [hnil, List.append_nil]
  · rw [hshort, List.length_append]
    exact Nat.le_add_right _ _

end Token.Spelled

/-! ## All tokens of a text -/

/-- Each lexeme stands in the text at its span, and does not absorb what is behind it. -/
theorem Cursor.exists_cut_of_mem_lexemes {c : Cursor} {t : Lexeme} (h : t ∈ c.lexemes) :
    ∃ as bs, c.rest = as ++ t.token.literal.toList ++ bs ∧
      c.offset + byteLength as = t.token.span.start ∧
      t.token.span.stop = t.token.span.start + byteLength t.token.literal.toList ∧
      ∀ d ∈ bs.head?, t.kind.absorbs d = false := by
  fun_induction lexemes c with
  | case1 c hc => cases h
  | case2 c u c' hc ih =>
    obtain ⟨w, -, hrest, -, hstart, hstop, hoffset⟩ := exists_gap_of_next? hc
    rcases List.mem_cons.1 h with rfl | h
    · exact ⟨w, c'.rest, hrest, hstart.symm, hstop, fun d hd => absorbs_of_next? hc d hd⟩
    · obtain ⟨as, bs, hrest', hstart', hstop', habsorbs⟩ := ih h
      refine ⟨w ++ u.token.literal.toList ++ as, bs, ?_, ?_, hstop', habsorbs⟩
      · rw [hrest, hrest']
        simp only [List.append_assoc]
      · rw [byteLength_append, byteLength_append]
        omega

/-- The token stands in the text at its span; it does not absorb the character behind it, and of all texts
that some kind admits, it has the longest that stands there. -/
def Token.IsLongest (source : String) (t : Token) : Prop :=
  ∃ pre post, source = pre ++ t.literal ++ post ∧ pre.utf8ByteSize = t.span.start ∧
    (pre ++ t.literal).utf8ByteSize = t.span.stop ∧
    (∀ d ∈ post.toList.head?, t.kind.absorbs d = false) ∧
    ∀ text post', t.literal ++ post = text ++ post' → ∀ kind : TokenKind, kind.Admits text →
      text.length ≤ t.literal.length

theorem Cursor.isLongest_of_mem_lexemes {source : String} {t : Lexeme}
    (h : t ∈ (ofString source).lexemes) : t.token.IsLongest source := by
  obtain ⟨as, bs, hrest, hstart, hstop, habsorbs⟩ := exists_cut_of_mem_lexemes h
  have hstart : byteLength as = t.token.span.start := (Nat.zero_add _).symm.trans hstart
  have hbs : (String.ofList bs).toList = bs := String.toList_ofList
  refine ⟨String.ofList as, String.ofList bs, ?_, ?_, ?_, ?_, ?_⟩
  · have hsource : source.toList = as ++ t.token.literal.toList ++ bs := hrest
    rw [← String.ofList_toList (s := source), hsource, String.ofList_append, String.ofList_append,
      String.ofList_toList]
  · rw [byteLength_ofList, hstart]
  · rw [String.utf8ByteSize_append, byteLength_ofList, hstart, hstop, byteLength_toList]
  · rw [hbs]
    exact habsorbs
  · intro text post' heq kind hkind
    have hchars := congrArg String.toList heq
    rw [String.toList_append, String.toList_append, hbs] at hchars
    rw [← String.ofList_toList (s := text)] at hkind
    exact (spelled_of_mem_lexemes h).length_le habsorbs hchars hkind

theorem Token.isLongest_endOfText (source : String) :
    (endOfText source.utf8ByteSize).IsLongest source := by
  refine ⟨source, "", ?_, rfl, ?_, ?_, ?_⟩
  · show source = source ++ "" ++ ""
    rw [String.append_empty, String.append_empty]
  · show (source ++ "").utf8ByteSize = source.utf8ByteSize
    rw [String.append_empty]
  · intro d hd
    cases hd
  · intro text post' heq kind _
    have hchars : [] = text.toList ++ post'.toList := by
      rw [← String.toList_append]
      exact congrArg String.toList heq
    have hempty : text = "" :=
      String.toList_eq_nil_iff.1 (List.append_eq_nil_iff.1 hchars.symm).1
    rw [hempty]
    exact Nat.zero_le _

/-- **Tokens are told apart by their texts, and each is as long as it can be.**  A token of a text is of a
kind exactly if the kind admits the token's own text, and no longer text that a kind admits stands at its
place. -/
theorem longest_match_of_mem_tokens (source : String) (t : Token) (h : t ∈ tokens source) :
    (∀ kind, t.kind = kind ↔ kind.Admits t.literal) ∧ t.IsLongest source := by
  rcases List.mem_append.1 h with h | h
  · obtain ⟨u, hu, rfl⟩ := List.mem_map.1 h
    exact ⟨(Cursor.spelled_of_mem_lexemes hu).kind_eq_iff, Cursor.isLongest_of_mem_lexemes hu⟩
  · have hstop : (Cursor.ofString source).stop = source.utf8ByteSize := by
      rw [Cursor.ofString, Cursor.stop, byteLength_toList, Nat.zero_add]
    rw [hstop] at h
    obtain rfl := List.mem_singleton.1 h
    exact ⟨fun kind => eq_comm.trans TokenKind.admits_empty_iff.symm, Token.isLongest_endOfText source⟩

/-- In front of a second sign `=` the text `!=` is cut off whole, and no more than that. -/
theorem longest_match_of_mem_tokens_notEqual :
    let t : Token := ⟨.operator .notEqual, "!=", ⟨4, 6⟩⟩
    t ∈ tokens "lets!==x1" ∧ (∀ kind, t.kind = kind ↔ kind.Admits "!=") ∧
      t.IsLongest "lets!==x1" := by
  intro t
  have hmem : t ∈ tokens "lets!==x1" := by decide +kernel
  exact ⟨hmem, longest_match_of_mem_tokens "lets!==x1" t hmem⟩

end MonkeyLang
