import Mathlib.Data.List.DropRight
import MonkeyLang.Proofs.Interleaving
import MonkeyLang.Proofs.Reflow
import MonkeyLang.Proofs.Reports

/-!
# Reports point at the right place

The report on the diagnostics of a text has a block for each of them, and in the block a header that names the
line and the column at which the span of the diagnostic starts: one more than the line feeds before it, and
one more than the bytes between the last of these and the span.  So it is with all diagnostics, also with
those at the end of a text, be the text empty or its last line ended, and no diagnostic is written in a plain
line for want of a place (`report_is_placed`).

What renders the reports is a parameter.  Two things are assumed of it: it looks for a span by going through
the bytes of the text (`ReportHandler.SearchesBytes`), and if it finds the span, with a line of context and
without, it writes a header with the place that it has found (`ReportHandler.PrintsPlace`).  The handler that
shows snippets does both (`ReportHandler.graphical_searchesBytes`, `ReportHandler.graphical_printsPlace`).

That a search finds the span is `ContextSearch.find_utf8Bytes`, and so is what it finds.  A place inside a line
break of two characters would be named by the place in front of it.  No span of a token starts there, since no
token begins with a line feed.
-/

namespace MonkeyLang

open Character

/-- The number of the line in which a text ends. -/
def lineNumber (cs : List Char) : Nat := cs.count '\n' + 1

/-- The column behind a text, in bytes, on the line in which it ends. -/
def columnNumber (cs : List Char) : Nat := byteLength (cs.rtakeWhile Line.isInner) + 1

variable {front back : List Char}

/-! ## The place among the bytes -/

/-- The bytes of the UTF-8 form of a text. -/
def utf8Bytes (cs : List Char) : List UInt8 := cs.flatMap String.utf8EncodeChar

@[simp] theorem utf8Bytes_nil : utf8Bytes [] = [] := rfl

theorem utf8Bytes_cons (c : Char) (cs : List Char) :
    utf8Bytes (c :: cs) = String.utf8EncodeChar c ++ utf8Bytes cs := List.flatMap_cons

theorem utf8Bytes_append (as bs : List Char) :
    utf8Bytes (as ++ bs) = utf8Bytes as ++ utf8Bytes bs := List.flatMap_append

theorem utf8Bytes_concat (cs : List Char) (c : Char) :
    utf8Bytes (cs ++ [c]) = utf8Bytes cs ++ String.utf8EncodeChar c := by
  rw [utf8Bytes_append, utf8Bytes_cons, utf8Bytes_nil, List.append_nil]

theorem length_utf8Bytes (cs : List Char) : (utf8Bytes cs).length = byteLength cs := by
  induction cs with
  | nil => rfl
  | cons c cs ih =>
    rw [utf8Bytes_cons, List.length_append, String.length_utf8EncodeChar, ih, byteLength_cons]

theorem toList_toByteArray (source : String) :
    source.toByteArray.data.toList = utf8Bytes source.toList := by
  rw [← String.utf8Encode_toList, List.utf8Encode, List.toList_data_toByteArray, utf8Bytes]

theorem toNat_of_mem_utf8EncodeChar {c : Char} {b : UInt8} (hb : b.toNat < 128)
    (h : b ∈ String.utf8EncodeChar c) : b.toNat = c.toNat := by
  unfold String.utf8EncodeChar at h
  grind [UInt8.toNat_ofNat', Char.toNat_val]

/-- The byte of an ASCII character is in the form of no other character. -/
theorem eq_of_mem_utf8EncodeChar {c d : Char} {b : UInt8} (hb : b.toNat < 128)
    (hd : b.toNat = d.toNat) (h : b ∈ String.utf8EncodeChar c) : c = d :=
  Char.ext (UInt32.toNat_inj.1 ((toNat_of_mem_utf8EncodeChar hb h).symm.trans hd))

namespace ContextSearch

theorem lineFeed_mem_utf8EncodeChar {c : Char} (h : lineFeed ∈ String.utf8EncodeChar c) : c = '\n' :=
  eq_of_mem_utf8EncodeChar (by decide) rfl h

theorem carriageReturn_mem_utf8EncodeChar {c : Char}
    (h : carriageReturn ∈ String.utf8EncodeChar c) : c = '\r' :=
  eq_of_mem_utf8EncodeChar (by decide) rfl h

theorem count_utf8EncodeChar (c : Char) :
    (String.utf8EncodeChar c).count lineFeed = [c].count '\n' := by
  by_cases hc : c = '\n'
  · rw [hc]
    rfl
  · rw [List.count_eq_zero.2 fun h => hc (lineFeed_mem_utf8EncodeChar h),
      List.count_eq_zero.2 fun h => hc (List.mem_singleton.1 h).symm]

theorem count_utf8Bytes (cs : List Char) : (utf8Bytes cs).count lineFeed = cs.count '\n' := by
  induction cs with
  | nil => rfl
  | cons c cs ih =>
    rw [utf8Bytes_cons, List.count_append, ih, count_utf8EncodeChar, ← List.count_append,
      List.singleton_append]

theorem foldl_columnBehind {bs : List UInt8} (h : lineFeed ∉ bs) (column : Nat) :
    bs.foldl columnBehind column = column + bs.length := by
  induction bs generalizing column with
  | nil => rfl
  | cons b bs ih =>
    obtain ⟨hb, hbs⟩ := not_or.1 (mt List.mem_cons.2 h)
    rw [List.foldl_cons, ih hbs, columnBehind, if_neg (Ne.symm hb), List.length_cons]
    omega

/-- The column that the search counts up is told by the bytes behind the last line feed. -/
theorem foldl_columnBehind_utf8Bytes (cs : List Char) :
    (utf8Bytes cs).foldl columnBehind 0 = byteLength (cs.rtakeWhile Line.isInner) := by
  induction cs using List.reverseRecOn with
  | nil => rfl
  | append_singleton cs c ih =>
    rw [utf8Bytes_concat, List.foldl_append, ih]
    by_cases hc : c = '\n'
    · rw [hc, List.rtakeWhile_concat_neg _ _ _ (by decide)]
      rfl
    · rw [foldl_columnBehind fun h => hc (lineFeed_mem_utf8EncodeChar h),
        String.length_utf8EncodeChar, List.rtakeWhile_concat_pos _ _ _ (by simpa [Line.isInner]),
        byteLength_append, byteLength_cons, byteLength_nil, Nat.add_zero]

theorem getLast?_utf8Bytes (h : front.getLast? ≠ some '\r') :
    (utf8Bytes front).getLast? ≠ some carriageReturn := by
  intro hlast
  rcases List.eq_nil_or_concat front with rfl | ⟨cs, c, rfl⟩
  · cases hlast
  · have hne : String.utf8EncodeChar c ≠ [] := String.utf8EncodeChar_ne_nil
    rw [List.concat_eq_append] at h hlast
    rw [utf8Bytes_concat, List.getLast?_append_of_ne_nil _ hne] at hlast
    have hc : c = '\r' := carriageReturn_mem_utf8EncodeChar (List.mem_of_getLast? hlast)
    exact h (by rw [List.getLast?_concat, hc])

/-- In texts too, the one half of a line break stands only in front of the other. -/
theorem paired_utf8Bytes {cs : List Char} (h : Paired '\r' '\n' cs) :
    Paired carriageReturn lineFeed (utf8Bytes cs) := by
  induction cs with
  | nil => trivial
  | cons c cs ih =>
    obtain ⟨hbreak, hcs⟩ := h
    rw [utf8Bytes_cons]
    by_cases hc : c = '\r'
    · refine hc ▸ ⟨fun _ => ?_, ih hcs⟩
      obtain ⟨cs, rfl⟩ := List.head?_eq_some_iff.1 (hbreak hc)
      rfl
    · exact (ih hcs).append fun h => hc (carriageReturn_mem_utf8EncodeChar h)

/-- With no lines of context, the search finds the line and the column at which a span starts that does
not start inside a line break. -/
theorem find_utf8Bytes {s : Span} (hstart : s.start = byteLength front)
    (hpaired : Paired '\r' '\n' (front ++ back)) (hlast : front.getLast? ≠ some '\r')
    (hbounds : isOutOfBounds (byteLength (front ++ back)) s = false) :
    ∃ c, find 0 s (utf8Bytes (front ++ back)) = some c ∧ c.line + 1 = lineNumber front ∧
      c.column + 1 = columnNumber front := by
  have hpaired := paired_utf8Bytes hpaired
  rw [← length_utf8Bytes] at hstart hbounds
  rw [utf8Bytes_append] at hpaired hbounds ⊢
  obtain ⟨c, hc, hline, hcolumn⟩ :=
    find_place hstart.symm hpaired (getLast?_utf8Bytes hlast) hbounds
  refine ⟨c, hc, ?_, ?_⟩
  · rw [hline, count_utf8Bytes, lineNumber]
  · rw [hcolumn, foldl_columnBehind_utf8Bytes, columnNumber]

end ContextSearch

/-! ## Places of tokens -/

/-- Each token of a text stands behind a part of it, the token for its end too, and the character behind
that part is no line feed. -/
theorem exists_front_of_mem_tokens {source : String} {t : Token} (h : t ∈ tokens source) :
    ∃ front back, source.toList = front ++ t.literal.toList ++ back ∧
      t.span = ⟨byteLength front, byteLength (front ++ t.literal.toList)⟩ ∧
      (t.literal.toList ++ back).head? ≠ some '\n' := by
  obtain ⟨pre, post, hsource, hstart, hstop⟩ :=
    Span.slice?_eq_some_iff.1 ((Cursor.isIn_ofString source).slice?_of_mem_tokens t h)
  refine ⟨pre.toList, post.toList, ?_, ?_, ?_⟩
  · rw [hsource, String.toList_append, String.toList_append]
  · rw [← String.toList_append, byteLength_toList, byteLength_toList, hstart, hstop]
  · rw [tokens_eq_append] at h
    rcases List.mem_append.1 h with h | h
    · obtain ⟨u, hu, rfl⟩ := List.mem_map.1 h
      obtain ⟨c, cs, hblank, hliteral, -⟩ := Cursor.spelled_of_mem_lexemes hu
      rw [hliteral, List.cons_append, List.head?_cons]
      rintro ⟨⟩
      cases hblank
    · obtain rfl := List.mem_singleton.1 h
      have hsize := congrArg String.utf8ByteSize hsource
      have hstop : (pre ++ "").utf8ByteSize = source.utf8ByteSize := hstop
      rw [String.utf8ByteSize_append, show (pre ++ Token.literal _).utf8ByteSize = _ from hstop] at hsize
      have hpost : post = "" := String.utf8ByteSize_eq_zero_iff.1 (by omega)
      rw [hpost]
      exact nofun

/-- Where each carriage return is the first half of a line break, the span of a diagnostic covers a part
of the text, and does not start inside a line break. -/
theorem exists_front_of_mem_diagnostics {source : String} {settings : Settings} {d : Diagnostic}
    (hbreaks : Paired '\r' '\n' source.toList) (hd : d ∈ (parse source settings).diagnostics) :
    ∃ front text back, source.toList = front ++ text ++ back ∧
      d.span = ⟨byteLength front, byteLength (front ++ text)⟩ ∧ front.getLast? ≠ some '\r' := by
  obtain ⟨e, he, rfl⟩ := List.mem_map.1 hd
  obtain ⟨front, back, hsource, hspan, hhead⟩ :=
    exists_front_of_mem_tokens (token_mem_tokens_of_mem_errors he)
  refine ⟨front, e.token.literal.toList, back, hsource, hspan, fun hlast => hhead ?_⟩
  -- With a carriage return in front of it, the token would begin with the line feed.
  rw [hsource, List.append_assoc] at hbreaks
  exact hbreaks.head?_of_getLast? hlast

/-! ## Reports -/

/-- A block of a report has a header, with the line and the column at which the diagnostic is in the text. -/
def Diagnostic.PlacedIn (file source : String) (d : Diagnostic) (block : String) : Prop :=
  ∃ front text back above below, source.toList = front ++ text ++ back ∧
    d.span = ⟨byteLength front, byteLength (front ++ text)⟩ ∧
    block = above ++ ("╭─[" ++ file ++ ":" ++ toString (lineNumber front) ++ ":" ++
      toString (columnNumber front) ++ "]" ++ "\n") ++ below

section Places

variable {handler : ReportHandler} {file source : String} {settings : Settings} {d : Diagnostic}

/-- The header names the line and the column behind the part of the text that ends where the diagnostic
starts. -/
theorem Diagnostic.PlacedIn.exists_eq {block : String} (h : d.PlacedIn file source block)
    (hsource : source.toList = front ++ back) (hstart : byteLength front = d.span.start) :
    ∃ above below, block = above ++ ("╭─[" ++ file ++ ":" ++ toString (lineNumber front) ++ ":" ++
      toString (columnNumber front) ++ "]" ++ "\n") ++ below := by
  obtain ⟨front', text, back', above, below, hsource', hspan, hblock⟩ := h
  have hcut : cutAt? d.span.start source.toList = some (front, back) :=
    cutAt?_eq_some_iff.2 ⟨hsource, hstart⟩
  have hcut' : cutAt? d.span.start source.toList = some (front', text ++ back') :=
    cutAt?_eq_some_iff.2 ⟨by rw [hsource', List.append_assoc], by rw [hspan]⟩
  obtain ⟨rfl, -⟩ := Prod.ext_iff.1 (Option.some.inj (hcut'.symm.trans hcut))
  exact ⟨above, below, hblock⟩

theorem span_le_of_mem_diagnostics (hd : d ∈ (parse source settings).diagnostics) :
    d.span.start ≤ d.span.stop ∧ d.span.stop ≤ source.utf8ByteSize := by
  obtain ⟨e, he, rfl⟩ := List.mem_map.1 hd
  obtain ⟨front, back, hsource, hspan, -⟩ :=
    exists_front_of_mem_tokens (token_mem_tokens_of_mem_errors he)
  have hspan : e.diagnostic.span = ⟨byteLength front, byteLength (front ++ e.token.literal.toList)⟩ :=
    hspan
  rw [hspan, ← byteLength_toList, hsource, byteLength_append, byteLength_append _ back,
    byteLength_append]
  exact ⟨Nat.le_add_right _ _, Nat.le_add_right _ _⟩

/-- A span that is in order and within the text is found, with any number of lines of context. -/
theorem ReportHandler.SearchesBytes.isSome_readSpan (h : handler.SearchesBytes) {s : Span}
    (hle : s.start ≤ s.stop) (hsize : s.stop ≤ source.utf8ByteSize) (n : Nat) :
    (handler.readSpan source s n).isSome := by
  have hlength : s.start + s.length = s.stop := Nat.add_sub_cancel' hle
  rw [h, ← ContextSearch.readSpan, Option.isSome_iff_ne_none, Ne, ContextSearch.readSpan_eq_none_iff,
    ContextSearch.isOutOfBounds, decide_eq_true_eq]
  omega

/-- A span that is found, and does not start inside a line break, is found on the line and at the column that
the text in front of it tells. -/
theorem ReportHandler.SearchesBytes.exists_place (h : handler.SearchesBytes) {s : Span}
    (hbreaks : Paired '\r' '\n' source.toList) (hsource : source.toList = front ++ back)
    (hstart : s.start = byteLength front) (hlast : front.getLast? ≠ some '\r')
    (hfound : (handler.readSpan source s 0).isSome) :
    ∃ c, handler.readSpan source s 0 = some c ∧ c.line + 1 = lineNumber front ∧
      c.column + 1 = columnNumber front := by
  rw [h, Option.isSome_iff_ne_none, Ne, ContextSearch.find_eq_none_iff, toList_toByteArray,
    length_utf8Bytes, Bool.not_eq_true] at hfound
  rw [h, toList_toByteArray]
  rw [hsource] at hbreaks hfound ⊢
  exact ContextSearch.find_utf8Bytes hstart hbreaks hlast hfound

/-- The report on a diagnostic is rendered, with a header that tells where the diagnostic is. -/
theorem ReportHandler.exists_render_eq (hsearches : handler.SearchesBytes)
    (hprints : handler.PrintsPlace) (file : String) (hbreaks : Paired '\r' '\n' source.toList)
    (hd : d ∈ (parse source settings).diagnostics) (out : String) :
    ∃ block, handler.render (d.toReport file source) out = .ok (out ++ block) ∧
      d.PlacedIn file source block := by
  obtain ⟨hle, hsize⟩ := span_le_of_mem_diagnostics hd
  have hread := hsearches.isSome_readSpan hle hsize
  obtain ⟨front, text, back, hsource, hspan, hlast⟩ := exists_front_of_mem_diagnostics hbreaks hd
  have hfront : source.toList = front ++ (text ++ back) := by rw [hsource, List.append_assoc]
  obtain ⟨context, hcontext⟩ := Option.isSome_iff_exists.1 (hread 1)
  obtain ⟨place, hplace, hline, hcolumn⟩ :=
    hsearches.exists_place hbreaks hfront (by rw [hspan]) hlast (hread 0)
  obtain ⟨above, below, hrender⟩ := hprints (d.toReport file source) out context place hcontext hplace
  rw [hline, hcolumn] at hrender
  exact ⟨_, hrender, front, text, back, above, below, hsource, hspan, rfl⟩

end Places

/-- **Reports point at the right place.**  In a text in which each carriage return is the first half of a
line break, the span of a diagnostic of the parser is in order and within the text.  It is found, with
whatever number of lines around it, and rendering does not fail; so no diagnostic is written in one plain
line.  The report is made up of one block for each diagnostic.  The block has a header, and this names the
line and the column that the text in front of the span tells. -/
theorem report_is_placed (handler : ReportHandler) (hsearches : handler.SearchesBytes)
    (hprints : handler.PrintsPlace) (file source : String) (settings : Settings)
    (hbreaks : Paired '\r' '\n' source.toList) :
    (∀ d ∈ (parse source settings).diagnostics,
      d.span.start ≤ d.span.stop ∧ d.span.stop ≤ source.utf8ByteSize ∧
      (∀ n, (handler.readSpan source d.span n).isSome) ∧
      ∀ out, ∃ block, handler.render (d.toReport file source) out = .ok (out ++ block)) ∧
    ∃ blocks,
      report file source (parse source settings).diagnostics handler = String.join blocks ∧
      List.Forall₂ (Diagnostic.PlacedIn file source) (parse source settings).diagnostics blocks := by
  constructor
  · intro d hd
    obtain ⟨hle, hsize⟩ := span_le_of_mem_diagnostics hd
    refine ⟨hle, hsize, hsearches.isSome_readSpan hle hsize, fun out => ?_⟩
    obtain ⟨block, hrender, -⟩ := ReportHandler.exists_render_eq hsearches hprints file hbreaks hd out
    exact ⟨block, hrender⟩
  · have hwrite : ∀ d ∈ (parse source settings).diagnostics, ∀ out, ∃ block,
        handler.write file source out d = out ++ block ∧ d.PlacedIn file source block := by
      intro d hd out
      obtain ⟨block, hrender, hplaced⟩ :=
        ReportHandler.exists_render_eq hsearches hprints file hbreaks hd out
      exact ⟨block, by rw [ReportHandler.write, hrender], hplaced⟩
    exact ReportHandler.exists_blocks hwrite

/-- Both diagnostics of a text are placed, the second in the first column of the third line: it is on what is
missing behind a character of two bytes and two line breaks of two characters. -/
theorem report_is_placed_behind_last_line :
    let source := "é;\r\nlet y =\r\n"
    Paired '\r' '\n' source.toList ∧ ReportHandler.graphical.SearchesBytes ∧
      ReportHandler.graphical.PrintsPlace ∧
      (parse source ⟨9⟩).diagnostics.map (·.span) = [⟨0, 2⟩, ⟨14, 14⟩] ∧
      ∃ above between below, report "main.mk" source (parse source ⟨9⟩).diagnostics =
        above ++ "╭─[main.mk:1:1]\n" ++ between ++ "╭─[main.mk:3:1]\n" ++ below := by
  intro source
  have hbreaks : Paired '\r' '\n' source.toList := by decide +kernel
  have hspans : (parse source ⟨9⟩).diagnostics.map (·.span) = [⟨0, 2⟩, ⟨14, 14⟩] := by decide +kernel
  have hsearches := ReportHandler.graphical_searchesBytes
  have hprints := ReportHandler.graphical_printsPlace
  refine ⟨hbreaks, hsearches, hprints, hspans, ?_⟩
  obtain ⟨-, blocks, hreport, hplaced⟩ :=
    report_is_placed .graphical hsearches hprints "main.mk" source ⟨9⟩ hbreaks
  obtain ⟨d, e, hds⟩ : ∃ d e, (parse source ⟨9⟩).diagnostics = [d, e] :=
    List.length_eq_two.1 (by decide +kernel)
  rw [hds] at hspans hreport hplaced ⊢
  obtain ⟨hd, he⟩ : d.span = ⟨0, 2⟩ ∧ e.span = ⟨14, 14⟩ := by simpa using hspans
  obtain _ | ⟨hfirst, _ | ⟨hsecond, ⟨⟩⟩⟩ := hplaced
  have hfront : source.toList = [] ++ source.toList := rfl
  have hall : source.toList = source.toList ++ [] := (List.append_nil _).symm
  obtain ⟨above, between, rfl⟩ := hfirst.exists_eq hfront (by rw [hd]; rfl)
  obtain ⟨between', below, rfl⟩ := hsecond.exists_eq hall (by rw [he]; decide +kernel)
  refine ⟨above, between ++ between', below, hreport.trans ?_⟩
  have hheader : "╭─[" ++ "main.mk" ++ ":" ++ toString (lineNumber []) ++ ":" ++
      toString (columnNumber []) ++ "]" ++ "\n" = "╭─[main.mk:1:1]\n" := by decide +kernel
  have hheader' : "╭─[" ++ "main.mk" ++ ":" ++ toString (lineNumber source.toList) ++ ":" ++
      toString (columnNumber source.toList) ++ "]" ++ "\n" = "╭─[main.mk:3:1]\n" := by decide +kernel
  rw [hheader, hheader']
  simp only [String.join_cons, String.join_nil, String.append_assoc, String.append_empty]

end MonkeyLang
