import Mathlib.Data.List.Forall2
import MonkeyLang.Proofs.ContextSearch
import MonkeyLang.Report

/-!
# Reports are written block by block

A report has one block for each of its diagnostics, in their order (`ReportHandler.exists_blocks`).  Where the
handler fails, the plain line is in the block, so no message is lost
(`ReportHandler.WritesMessage.exists_report_eq`).

The handler that shows snippets never fails (`ReportHandler.exists_graphical_render`), since a span that is
found with a line of context is found without (`Snippet.render_cases`).  What it writes on a diagnostic does
not depend on the others (`report_eq_join`).
-/

namespace MonkeyLang

variable {handler : ReportHandler} {file source : String} {ds : List Diagnostic}

/-! ## Handlers -/

namespace ReportHandler

/-- The handler looks for a span by a search over the bytes of the text. -/
def SearchesBytes (handler : ReportHandler) : Prop :=
  ∀ source s n, handler.readSpan source s n =
    ContextSearch.find n s source.toByteArray.data.toList

/-- The handler does not fail with a report whose span it finds, with a line of context and without, and it
writes the place of the span that it has found without. -/
def PrintsPlace (handler : ReportHandler) : Prop :=
  ∀ r out context place, handler.readSpan r.source r.span 1 = some context →
    handler.readSpan r.source r.span 0 = some place →
    ∃ above below, handler.render r out = .ok (out ++ (above ++ ("╭─[" ++ r.file ++ ":" ++
      toString (place.line + 1) ++ ":" ++ toString (place.column + 1) ++ "]" ++ "\n") ++ below))

/-- The handler adds to what has been written before, the message too if it does not fail. -/
structure WritesMessage (handler : ReportHandler) : Prop where
  ok {r : Report} {out text : String} : handler.render r out = .ok text →
    ∃ above below, text = out ++ (above ++ r.message ++ below)
  error {r : Report} {out text : String} : handler.render r out = .error text →
    ∃ left, text = out ++ left

/-- Blocks that are each written behind what is there make up the report. -/
theorem exists_blocks {p : Diagnostic → String → Prop}
    (h : ∀ d ∈ ds, ∀ out, ∃ block, handler.write file source out d = out ++ block ∧ p d block) :
    ∃ blocks, report file source ds handler = String.join blocks ∧ List.Forall₂ p ds blocks := by
  -- The induction is on the diagnostics that are left, behind whatever the others have written.
  suffices hfold : ∀ out, ∃ blocks,
      ds.foldl (handler.write file source) out = out ++ String.join blocks ∧ List.Forall₂ p ds blocks by
    obtain ⟨blocks, hblocks, hall⟩ := hfold ""
    exact ⟨blocks, hblocks.trans String.empty_append, hall⟩
  induction ds with
  | nil => exact fun out => ⟨[], String.append_empty.symm, .nil⟩
  | cons d ds ih =>
    intro out
    obtain ⟨block, hwrite, hblock⟩ := h d List.mem_cons_self out
    obtain ⟨blocks, hblocks, hall⟩ := ih (fun e he => h e (List.mem_cons_of_mem d he)) (out ++ block)
    refine ⟨block :: blocks, ?_, .cons hblock hall⟩
    rw [List.foldl_cons, hwrite, hblocks, String.join_cons, String.append_assoc]

/-- No message is lost: each diagnostic has its own in its block, whether or not rendering fails. -/
theorem WritesMessage.exists_report_eq (h : handler.WritesMessage) (file source : String)
    (ds : List Diagnostic) :
    ∃ blocks, report file source ds handler = String.join blocks ∧
      List.Forall₂ (fun d block => ∃ above below, block = above ++ d.message ++ below) ds blocks := by
  refine exists_blocks fun d _ out => ?_
  rw [write]
  cases hrender : handler.render (d.toReport file source) out with
  | ok text =>
    obtain ⟨above, below, rfl⟩ := h.ok hrender
    exact ⟨_, rfl, above, below, rfl⟩
  | error text =>
    obtain ⟨left, rfl⟩ := h.error hrender
    refine ⟨left ++ d.kind.label ++ ": " ++ d.message ++ "\n", ?_, _, "\n", rfl⟩
    simp only [String.append_assoc]

end ReportHandler

/-! ## Snippets -/

theorem unlines_cons (l : String) (ls : List String) : unlines (l :: ls) = l ++ "\n" ++ unlines ls := by
  rw [unlines, List.map_cons, String.join_cons, ← unlines]

namespace Snippet

theorem exists_body_eq (file source label : String) (s : Span) (place : Context) :
    ∃ margin below, body file source label s place =
      (margin ++ header file (place.line + 1) (place.column + 1)) :: below := by
  rw [body, List.append_assoc, List.singleton_append]
  exact ⟨_, _, rfl⟩

/-- Only for a span that is out of bounds, a line that says so stands in place of the snippet. -/
theorem render_cases (file source label : String) (s : Span) :
    (ContextSearch.isOutOfBounds source.utf8ByteSize s ∧
        render file source label s = some [failedLine label s]) ∨
      ∃ place, ContextSearch.readSpan source s 0 = some place ∧
        render file source label s = some (body file source label s place) := by
  unfold render
  cases hcontext : ContextSearch.readSpan source s 1 with
  | none => exact .inl ⟨ContextSearch.readSpan_eq_none_iff.1 hcontext, rfl⟩
  | some context =>
    cases hplace : ContextSearch.readSpan source s 0 with
    | none =>
      have hbounds := ContextSearch.readSpan_eq_none_iff.1 hplace
      rw [ContextSearch.readSpan_eq_none_iff.2 hbounds] at hcontext
      cases hcontext
    | some place => exact .inr ⟨place, rfl, rfl⟩

end Snippet

namespace ReportHandler

theorem graphical_searchesBytes : graphical.SearchesBytes := fun _ _ _ => rfl

theorem graphical_printsPlace : graphical.PrintsPlace := by
  intro r out context place hcontext hplace
  have hcontext : ContextSearch.readSpan r.source r.span 1 = some context := hcontext
  have hplace : ContextSearch.readSpan r.source r.span 0 = some place := hplace
  obtain ⟨margin, below, hbody⟩ := Snippet.exists_body_eq r.file r.source r.label r.span place
  refine ⟨unlines [r.code, "", "  × " ++ r.message] ++ margin,
    unlines below ++ unlines (r.help.toList.map ("  help: " ++ ·)), ?_⟩
  simp only [graphical, Snippet.render, hcontext, hplace, Option.map_some, hbody, unlines_cons,
    Snippet.header, String.append_assoc]

/-- The handler that shows snippets never fails, and what has been written before does not matter to it. -/
theorem exists_graphical_render (r : Report) :
    ∃ block, ∀ out, graphical.render r out = .ok (out ++ block) := by
  obtain ⟨snippet, hsnippet⟩ : ∃ ls, Snippet.render r.file r.source r.label r.span = some ls := by
    rcases Snippet.render_cases r.file r.source r.label r.span with ⟨-, h⟩ | ⟨_, -, h⟩ <;> exact ⟨_, h⟩
  refine ⟨unlines [r.code, "", "  × " ++ r.message] ++
    (unlines snippet ++ unlines (r.help.toList.map ("  help: " ++ ·))), fun out => ?_⟩
  simp only [graphical, hsnippet, String.append_assoc]

end ReportHandler

/-- The report with snippets on some diagnostics, whatever their spans, is made up of those on each of
them. -/
theorem report_eq_join (file source : String) (ds : List Diagnostic) :
    report file source ds = String.join (ds.map fun d => report file source [d]) := by
  have hwrite : ∀ d ∈ ds, ∀ out, ∃ block, ReportHandler.graphical.write file source out d = out ++ block ∧
      report file source [d] = block := by
    intro d _ out
    obtain ⟨block, hrender⟩ := ReportHandler.exists_graphical_render (d.toReport file source)
    refine ⟨block, by rw [ReportHandler.write, hrender], ?_⟩
    rw [report, List.foldl_cons, List.foldl_nil, ReportHandler.write, hrender, String.empty_append]
  obtain ⟨blocks, hblocks, hall⟩ := ReportHandler.exists_blocks hwrite
  have hmap : (ds.map fun d => report file source [d]) = blocks := by
    rw [← List.forall₂_eq_eq_eq]
    exact List.forall₂_map_left_iff.2 hall
  rw [hmap, hblocks]

end MonkeyLang
