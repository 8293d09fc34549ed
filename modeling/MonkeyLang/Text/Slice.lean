import MonkeyLang.Span
import MonkeyLang.Text.Size

/-!
# Slices

The slice of a text under a span is the text between the two offsets of the span.  It is there only if
the text can be cut at both: a cut inside the UTF-8 form of a character, or behind the end of the text,
is none.

The main statement is `Span.slice?_eq_some_iff`: a text has a slice exactly if it falls into three texts
of which the middle one is the slice and lies at the span.
-/

namespace MonkeyLang

/-- The text cut at the byte offset `n`: what is before the offset, and what is behind it. -/
def cutAt? : Nat → List Char → Option (List Char × List Char)
  | 0, cs => some ([], cs)
  | _ + 1, [] => none
  | n + 1, c :: cs =>
    if c.utf8Size ≤ n + 1 then (cutAt? (n + 1 - c.utf8Size) cs).map fun (as, bs) => (c :: as, bs)
    else none

/-- The slice of a text under a span. -/
def Span.slice? (s : Span) (source : String) : Option String := do
  let (front, _) ← cutAt? s.stop source.toList
  let (_, middle) ← cutAt? s.start front
  return String.ofList middle

theorem cutAt?_eq_some_iff {n : Nat} {cs as bs : List Char} :
    cutAt? n cs = some (as, bs) ↔ cs = as ++ bs ∧ byteLength as = n := by
  constructor
  · intro h
    fun_induction cutAt? n cs generalizing as bs with
    | case1 cs =>
      cases h
      exact ⟨rfl, rfl⟩
    | case2 => cases h
    | case3 n c cs hc ih =>
      obtain ⟨⟨as', bs'⟩, hcut, heq⟩ := Option.map_eq_some_iff.1 h
      cases heq
      obtain ⟨rfl, hlen⟩ := ih hcut
      refine ⟨rfl, ?_⟩
      rw [byteLength_cons]
      omega
    | case4 => cases h
  · rintro ⟨rfl, rfl⟩
    induction as with
    | nil => rw [byteLength_nil, cutAt?, List.nil_append]
    | cons a as ih =>
      have ha := a.utf8Size_pos
      obtain ⟨n, hn⟩ := Nat.exists_eq_add_of_lt ha
      have hsucc : byteLength (a :: as) = n + byteLength as + 1 := by
        rw [byteLength_cons]
        omega
      have hrest : n + byteLength as + 1 - a.utf8Size = byteLength as := by omega
      rw [hsucc, List.cons_append, cutAt?, if_pos (by omega), hrest, ih, Option.map_some]

/-- A span has a slice exactly if the text falls into three parts with the middle one at the span. -/
theorem Span.slice?_eq_some_iff {s : Span} {source text : String} :
    s.slice? source = some text ↔
      ∃ pre post, source = pre ++ text ++ post ∧ pre.utf8ByteSize = s.start ∧
        (pre ++ text).utf8ByteSize = s.stop := by
  constructor
  · intro h
    simp only [slice?, Option.bind_eq_bind, Option.bind_eq_some_iff, Prod.exists,
      cutAt?_eq_some_iff, Option.pure_def, Option.some.injEq] at h
    obtain ⟨_, post, ⟨hsource, hstop⟩, pre, middle, ⟨rfl, hstart⟩, rfl⟩ := h
    refine ⟨String.ofList pre, String.ofList post, ?_, ?_, ?_⟩
    · rw [← String.ofList_append, ← String.ofList_append, ← hsource, String.ofList_toList]
    · rw [byteLength_ofList, hstart]
    · rw [← String.ofList_append, byteLength_ofList, hstop]
  · rintro ⟨pre, post, rfl, hstart, hstop⟩
    have hfront : cutAt? s.stop (pre ++ text ++ post).toList =
        some ((pre ++ text).toList, post.toList) :=
      cutAt?_eq_some_iff.2 ⟨String.toList_append, by rw [byteLength_toList, hstop]⟩
    have hmiddle : cutAt? s.start (pre ++ text).toList = some (pre.toList, text.toList) :=
      cutAt?_eq_some_iff.2 ⟨String.toList_append, by rw [byteLength_toList, hstart]⟩
    simp only [slice?, hfront, hmiddle, Option.bind_eq_bind, Option.bind_some, Option.pure_def,
      String.ofList_toList]

end MonkeyLang
