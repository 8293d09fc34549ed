import Mathlib.Data.List.Forall2
import MonkeyLang.Proofs.Blame
import MonkeyLang.Proofs.Coverage
import MonkeyLang.Proofs.Layout
import MonkeyLang.Proofs.Rendering

/-!
# Texts that differ in their layout

Two texts with the same tokens, between which there are other blanks, say the same
(`parse_of_same_tokens`).  A text that parses without an error tells nothing more by its layout.  In a text
with errors the line breaks between its tokens count, for recovery asks for them, and nothing else does.

The two streams of lexemes are compared in a common numbering: each span is replaced by the place of its
token in the row of all tokens (`numbering`).  With their spans numbered, the streams are equal but for
the line break before the first lexeme, which nothing hangs on; so the attempts at them are equal, and an
attempt at a numbered stream is the attempt at the stream, numbered (`Program.outcomes_mapSpan`).
-/

namespace MonkeyLang

/-- For each token of a text but the first, whether a line feed stands in the blanks before it.  The blanks
at the end of the text are before no token. -/
def lineBreaks (source : String) : List Bool :=
  (Cursor.ofString source).lexemes.tail.map (·.startsLine)

/-- The place of the token with the given span in the row of all tokens of a text, as a span. -/
def numbering (source : String) (s : Span) : Span :=
  .point (((tokens source).map Token.span).idxOf s)

/-! ## The tokens of a text by number -/

theorem nodup_span_tokens (source : String) : ((tokens source).map Token.span).Nodup := by
  have hlexemes : ((Cursor.ofString source).lexemes.map (·.token)).map Token.span =
      (Cursor.ofString source).lexemes.map (·.token.span) := List.map_map
  rw [tokens, Cursor.tokens, List.map_append, hlexemes, List.map_singleton]
  refine (Cursor.ofString source).nodup_span_lexemes.append (List.nodup_singleton _) ?_
  intro s hs hend
  obtain ⟨t, ht, rfl⟩ := List.mem_map.1 hs
  exact Cursor.span_ne_point_of_mem_lexemes ht _ (List.mem_singleton.1 hend)

theorem numbering_getElem {source : String} {i : Nat} (h : i < (tokens source).length) :
    numbering source (tokens source)[i].span = .point i := by
  have hi : i < ((tokens source).map Token.span).length := by rwa [List.length_map]
  have hidx := (nodup_span_tokens source).idxOf_getElem i hi
  rw [List.getElem_map] at hidx
  rw [numbering, hidx]

/-- The token for the end of a text is the last, and the only one that is no lexeme. -/
theorem map_dropLast_tokens {α : Type} (f : Token → α) (source : String) :
    ((tokens source).map f).dropLast = (Cursor.ofString source).lexemes.map fun t => f t.token := by
  rw [tokens, Cursor.tokens, List.map_append, List.map_singleton, List.dropLast_concat, List.map_map]
  rfl

/-- Lexemes are equal if their tokens are and if lines begin at the same of them. -/
theorem lexemes_ext {ts us : List Lexeme} (htokens : ts.map (·.token) = us.map (·.token))
    (hlines : ts.map (·.startsLine) = us.map (·.startsLine)) : ts = us := by
  induction ts generalizing us with
  | nil => exact (List.map_eq_nil_iff.1 htokens.symm).symm
  | cons t ts ih =>
    obtain ⟨u, vs, rfl, hu, hvs⟩ := List.map_eq_cons_iff.1 htokens.symm
    obtain ⟨hline, hlines⟩ := List.cons.inj hlines
    have htu : t = u := by
      obtain ⟨token, line⟩ := t
      obtain ⟨token', line'⟩ := u
      exact congr (congrArg Lexeme.mk hu.symm) hline
    rw [htu, ih hvs.symm hlines]

/-! ## Two texts with the same tokens -/

section SameTokens

variable {s₁ s₂ : String} (h : (tokens s₁).map Token.unplaced = (tokens s₂).map Token.unplaced)

include h

/-- Two texts with the same tokens have the same numbered tokens. -/
theorem tokens_numbering : (tokens s₁).map (Token.mapSpan (numbering s₁)) =
    (tokens s₂).map (Token.mapSpan (numbering s₂)) := by
  have hlength : (tokens s₁).length = (tokens s₂).length := by
    simpa only [List.length_map] using congrArg List.length h
  refine List.ext_getElem (by rw [List.length_map, List.length_map, hlength]) fun i h₁ h₂ => ?_
  rw [List.length_map] at h₁ h₂
  have hunplaced : (tokens s₁)[i].unplaced = (tokens s₂)[i].unplaced := by
    have hi := congrArg (·[i]?) h
    simpa only [List.getElem?_map, List.getElem?_eq_getElem h₁, List.getElem?_eq_getElem h₂,
      Option.map_some, Option.some.injEq] using hi
  obtain ⟨hkind, hliteral, -⟩ := Token.mk.inj hunplaced
  rw [List.getElem_map, List.getElem_map, Token.mapSpan, Token.mapSpan, numbering_getElem h₁,
    numbering_getElem h₂, hkind, hliteral]

/-- The token for the end of a text has the same number in both. -/
theorem numbering_stop :
    numbering s₁ (.point s₁.utf8ByteSize) = numbering s₂ (.point s₂.utf8ByteSize) := by
  have hlast := congrArg List.getLast? (tokens_numbering h)
  rw [tokens, tokens, Cursor.tokens, Cursor.tokens, List.map_append, List.map_append,
    List.map_singleton, List.map_singleton, List.getLast?_concat, List.getLast?_concat,
    Cursor.stop_ofString, Cursor.stop_ofString] at hlast
  exact congrArg Token.span (Option.some.inj hlast)

/-- Two texts with the same tokens and line breaks have the same numbered lexemes, but for what stands
before the first. -/
theorem lexemes_numbering (hlines : lineBreaks s₁ = lineBreaks s₂) :
    relined false ((Cursor.ofString s₁).lexemes.map (Lexeme.mapSpan (numbering s₁))) =
      relined false ((Cursor.ofString s₂).lexemes.map (Lexeme.mapSpan (numbering s₂))) := by
  have htokens := congrArg List.dropLast (tokens_numbering h)
  rw [map_dropLast_tokens, map_dropLast_tokens] at htokens
  rw [lineBreaks, lineBreaks] at hlines
  generalize (Cursor.ofString s₁).lexemes = ts at htokens hlines
  generalize (Cursor.ofString s₂).lexemes = us at htokens hlines
  cases ts with
  | nil =>
    obtain rfl : us = [] := by simpa using htokens
    rfl
  | cons t ts =>
    cases us with
    | nil => cases htokens
    | cons u us =>
      refine lexemes_ext ?_ ?_
      · rw [List.map_cons, List.map_cons] at htokens ⊢
        rw [relined, relined, List.map_cons, List.map_cons, List.map_map, List.map_map]
        exact htokens
      · have htails : (ts.map (Lexeme.mapSpan (numbering s₁))).map (·.startsLine) =
            (us.map (Lexeme.mapSpan (numbering s₂))).map (·.startsLine) := by
          rw [List.map_map, List.map_map]
          exact hlines
        exact congrArg (false :: ·) htails

/-- Two texts with the same tokens and line breaks parse to the same, by the numbers of their tokens. -/
theorem parse_numbering (settings : Settings) (hlines : lineBreaks s₁ = lineBreaks s₂) :
    (parse s₁ settings).mapSpan (numbering s₁) = (parse s₂ settings).mapSpan (numbering s₂) := by
  obtain ⟨n, hn⟩ : ∃ n, numbering s₁ (.point s₁.utf8ByteSize) = .point n := ⟨_, rfl⟩
  have hn' : numbering s₂ (.point s₂.utf8ByteSize) = .point n := (numbering_stop h).symm.trans hn
  rw [parse_eq_ofOutcomes, parse_eq_ofOutcomes, ← Parse.ofOutcomes_map_mapSpan,
    ← Parse.ofOutcomes_map_mapSpan, ← Program.outcomes_mapSpan _ hn,
    ← Program.outcomes_mapSpan _ hn', ← Program.outcomes_relined settings.maxDepth n false,
    lexemes_numbering h hlines, Program.outcomes_relined]

/-- Where a text parses without an error, its layout has no part in it. -/
theorem parse_of_same_tokens_of_errors_eq_nil {settings : Settings}
    (herrors : (parse s₁ settings).errors = []) :
    (parse s₂ settings).errors = [] ∧
      (parse s₂ settings).program.statements.map Statement.unplaced =
        (parse s₁ settings).program.statements.map Statement.unplaced := by
  have hread : Program.outcomes settings.maxDepth s₁.utf8ByteSize (Cursor.ofString s₁).lexemes =
      (parse s₁ settings).program.statements.map .ok :=
    Parse.ofOutcomes_eq_iff.1 (by rw [← parse_eq_ofOutcomes, ← herrors])
  obtain ⟨hw, hl⟩ := Program.outcomes_eq_map_ok_iff.1 hread
  have hlexemes : (Cursor.ofString s₂).lexemes.map (·.token.unplaced) =
      ((Cursor.ofString s₁).lexemes.map (·.token)).map Token.unplaced := by
    rw [List.map_map]
    have htokens := congrArg List.dropLast h.symm
    rwa [map_dropLast_tokens, map_dropLast_tokens] at htokens
  obtain ⟨ss, hparse, hss⟩ :=
    Program.exists_ofOutcomes_of_unplaced s₂.utf8ByteSize hlexemes hw hl
  rw [parse_eq_ofOutcomes s₂, hparse]
  exact ⟨rfl, hss⟩

end SameTokens

/-! ## Errors at the same tokens -/

theorem token_mem_tokens_of_mem_errors {source : String} {settings : Settings} {e : ParseError}
    (h : e ∈ (parse source settings).errors) : e.token ∈ tokens source := by
  rw [parse_eq_ofOutcomes] at h
  have htoken := Program.token_mem_of_error_mem (Parse.mem_filterMap_error?_iff.1 h)
  rwa [tokens, Cursor.tokens, Cursor.stop_ofString]

/-- Two errors say the same, and of the same token of two rows. -/
structure ParseError.Agrees (ts us : List Token) (e e' : ParseError) : Prop where
  message_eq : e.message = e'.message
  kind_eq : e.kind = e'.kind
  hint_eq : e.hint = e'.hint
  exists_getElem? : ∃ i : Nat, ts[i]? = some e.token ∧ us[i]? = some e'.token

theorem ParseError.agrees_of_numbering {s₁ s₂ : String} {e₁ e₂ : ParseError}
    (h₁ : e₁.token ∈ tokens s₁) (h₂ : e₂.token ∈ tokens s₂)
    (h : e₁.mapSpan (numbering s₁) = e₂.mapSpan (numbering s₂)) :
    e₁.Agrees (tokens s₁) (tokens s₂) e₂ := by
  obtain ⟨i, hi, hi'⟩ := List.getElem_of_mem h₁
  obtain ⟨j, hj, hj'⟩ := List.getElem_of_mem h₂
  have hij : i = j := by
    have hspan := congrArg (·.token.span.start) h
    simp only [mapSpan, Token.mapSpan_span, ← hi', ← hj', numbering_getElem] at hspan
    exact hspan
  subst hij
  refine ⟨?_, ?_, ?_, i, ?_, ?_⟩
  · rw [← message_mapSpan (numbering s₁), h, message_mapSpan]
  · rw [← kind_mapSpan (numbering s₁), h, kind_mapSpan]
  · rw [← hint_mapSpan (numbering s₁), h, hint_mapSpan]
  · rw [List.getElem?_eq_getElem hi, hi']
  · rw [List.getElem?_eq_getElem hj, hj']

/-- Lists with the same images are related element by element. -/
theorem forall₂_of_map_eq {α β γ : Type} {f : α → γ} {g : β → γ} {R : α → β → Prop} {as : List α}
    {bs : List β} (h : as.map f = bs.map g) (hR : ∀ a ∈ as, ∀ b ∈ bs, f a = g b → R a b) :
    List.Forall₂ R as bs := by
  induction as generalizing bs with
  | nil =>
    obtain rfl := List.map_eq_nil_iff.1 h.symm
    exact .nil
  | cons a as ih =>
    obtain ⟨b, bs, rfl, hb, hbs⟩ := List.map_eq_cons_iff.1 h.symm
    refine .cons (hR a List.mem_cons_self b List.mem_cons_self hb.symm) (ih hbs.symm ?_)
    intro a' ha' b' hb'
    exact hR a' (List.mem_cons_of_mem a ha') b' (List.mem_cons_of_mem b hb')

/-- **Layout has no meaning beyond the line breaks in recovery.**  Two texts with the same tokens and the
same line breaks between them have the same statements, but for their places, and the same errors at the
same tokens.  If the one has no error, then neither has the other, and their statements are the same
whatever the line breaks are. -/
theorem parse_of_same_tokens (s₁ s₂ : String) (settings : Settings)
    (h : (tokens s₁).map Token.unplaced = (tokens s₂).map Token.unplaced) :
    (lineBreaks s₁ = lineBreaks s₂ →
      (parse s₁ settings).program.statements.map Statement.unplaced =
          (parse s₂ settings).program.statements.map Statement.unplaced ∧
        List.Forall₂ (ParseError.Agrees (tokens s₁) (tokens s₂)) (parse s₁ settings).errors
          (parse s₂ settings).errors) ∧
    ((parse s₁ settings).errors = [] →
      (parse s₂ settings).errors = [] ∧
        (parse s₂ settings).program.statements.map Statement.unplaced =
          (parse s₁ settings).program.statements.map Statement.unplaced) := by
  refine ⟨fun hlines => ?_, parse_of_same_tokens_of_errors_eq_nil h⟩
  have hparse := parse_numbering h settings hlines
  constructor
  · have hstatements : (parse s₁ settings).program.statements.map (Statement.mapSpan (numbering s₁)) =
        (parse s₂ settings).program.statements.map (Statement.mapSpan (numbering s₂)) :=
      congrArg (·.program.statements) hparse
    have hforget (source : String) :
        Statement.unplaced ∘ Statement.mapSpan (numbering source) = Statement.unplaced :=
      funext fun s => s.mapSpan_mapSpan (numbering source) fun _ => .point 0
    have hunplaced := congrArg (List.map Statement.unplaced) hstatements
    rwa [List.map_map, List.map_map, hforget, hforget] at hunplaced
  · have herrors : (parse s₁ settings).errors.map (ParseError.mapSpan (numbering s₁)) =
        (parse s₂ settings).errors.map (ParseError.mapSpan (numbering s₂)) :=
      congrArg (·.errors) hparse
    refine forall₂_of_map_eq herrors ?_
    intro e₁ he₁ e₂ he₂
    exact ParseError.agrees_of_numbering (token_mem_tokens_of_mem_errors he₁)
      (token_mem_tokens_of_mem_errors he₂)

/-- A text with three errors, the last of them at its end, keeps them where only its blanks change; and a
binding may be put on three lines. -/
theorem parse_of_same_tokens_reflowed :
    let s₁ := "let\n@; x + "
    let s₂ := " let \r\n\t@ ;x\t+"
    let one := "let x = 1"
    let three := "let\nx =\n1"
    (tokens s₁).map Token.unplaced = (tokens s₂).map Token.unplaced ∧
    lineBreaks s₁ = lineBreaks s₂ ∧
    List.Forall₂ (ParseError.Agrees (tokens s₁) (tokens s₂)) (parse s₁ {}).errors
      (parse s₂ {}).errors ∧
    (tokens one).map Token.unplaced = (tokens three).map Token.unplaced ∧
    (parse one {}).errors = [] ∧
    (parse three {}).program.statements.map Statement.unplaced =
      (parse one {}).program.statements.map Statement.unplaced := by
  intro s₁ s₂ one three
  have htokens : (tokens s₁).map Token.unplaced = (tokens s₂).map Token.unplaced := by
    decide +kernel
  have hlines : lineBreaks s₁ = lineBreaks s₂ := by decide +kernel
  have hwords : (tokens one).map Token.unplaced = (tokens three).map Token.unplaced := by
    decide +kernel
  have herrors : (parse one {}).errors = [] := by decide +kernel
  exact ⟨htokens, hlines, ((parse_of_same_tokens s₁ s₂ {} htokens).1 hlines).2, hwords, herrors,
    ((parse_of_same_tokens one three {} hwords).2 herrors).2⟩

end MonkeyLang
