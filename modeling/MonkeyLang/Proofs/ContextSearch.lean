import MonkeyLang.Report.ContextSearch

/-!
# What a search for a span finds

The search fails exactly if the span is out of bounds (`ContextSearch.find_eq_none_iff`), however many lines of
context it looks for.  With no lines of context it counts what stands before the span: the line feeds,
and the bytes behind the last of them (`ContextSearch.find_place`).  A carriage return by itself is a
line break to the search, so that is said of texts in which each carriage return is one half of a line
break (`Paired`).
-/

namespace MonkeyLang

/-- Each `a` in a list has a `b` directly behind it. -/
def Paired {α : Type} (a b : α) : List α → Prop
  | [] => True
  | c :: cs => (c = a → cs.head? = some b) ∧ Paired a b cs

instance decidablePaired {α : Type} [DecidableEq α] (a b : α) : (cs : List α) → Decidable (Paired a b cs)
  | [] => .isTrue trivial
  | _ :: cs =>
    have := decidablePaired a b cs
    inferInstanceAs (Decidable (_ ∧ _))

namespace Paired

variable {α : Type} {a b : α} {as bs : List α}

theorem append (h : Paired a b bs) (ha : a ∉ as) : Paired a b (as ++ bs) := by
  induction as with
  | nil => exact h
  | cons c as ih =>
    obtain ⟨hc, has⟩ := not_or.1 (mt List.mem_cons.2 ha)
    exact ⟨fun heq => absurd heq.symm hc, ih has⟩

theorem head?_of_getLast? (h : Paired a b (as ++ bs)) (ha : as.getLast? = some a) :
    bs.head? = some b := by
  induction as with
  | nil => cases ha
  | cons c as ih =>
    cases as with
    | nil => exact h.1 (Option.some.inj ha)
    | cons d as => exact ih h.2 (by rwa [List.getLast?_cons_cons] at ha)

end Paired

namespace ContextSearch

/-- Whether a span reaches further than one byte behind a text of `size` bytes. -/
def isOutOfBounds (size : Nat) (s : Span) : Bool := size + 1 < s.start + s.length

variable {n : Nat} {s : Span} {b : UInt8} {bs : List UInt8} {h : ContextSearch}

/-! ## Bounds -/

@[simp] theorem offset_pass : h.pass.offset = h.offset + 1 := rfl

theorem offset_look (n : Nat) (s : Span) (b : UInt8) (h : ContextSearch) :
    (h.look n s b).1.offset = h.offset := by
  unfold look breakBefore breakAfter
  grind

theorem le_of_look (hover : (h.look n s b).2) : s.start + s.length - 1 ≤ h.offset := by
  unfold look at hover
  grind

theorem offset_settle (n : Nat) (s : Span) (h : ContextSearch) :
    (h.settle n s).1.offset = h.offset := by
  unfold settle
  split <;> rfl

theorem le_of_settle (hover : (h.settle n s).2) : s.start + s.length - 1 ≤ h.offset := by
  unfold settle at hover
  grind

/-- A turn is over with the look at the byte, or else as the end of the byte has it. -/
theorem turn_cases (n : Nat) (s : Span) (b : UInt8) (h : ContextSearch) :
    ((h.look n s b).2 = true ∧ h.turn n s b = ((h.look n s b).1.pass, true)) ∨
      ((h.look n s b).2 = false ∧ h.turn n s b =
        (((h.look n s b).1.settle n s).1.pass, ((h.look n s b).1.settle n s).2)) := by
  rw [turn]
  obtain ⟨k, ended⟩ := h.look n s b
  cases ended with
  | true => exact .inl ⟨rfl, rfl⟩
  | false => exact .inr ⟨rfl, rfl⟩

/-- A turn goes on by one byte. -/
@[simp] theorem offset_turn (n : Nat) (s : Span) (b : UInt8) (h : ContextSearch) :
    (h.turn n s b).1.offset = h.offset + 1 := by
  rcases turn_cases n s b h with ⟨-, hturn⟩ | ⟨-, hturn⟩
  · rw [hturn, offset_pass, offset_look]
  · rw [hturn, offset_pass, offset_settle, offset_look]

/-- The search is not over before the last byte of the span. -/
theorem le_of_turn (hover : (h.turn n s b).2) : s.start + s.length - 1 ≤ h.offset := by
  rcases turn_cases n s b h with ⟨hlook, -⟩ | ⟨-, hturn⟩
  · exact le_of_look hlook
  · rw [hturn] at hover
    have hle := le_of_settle hover
    rwa [offset_look] at hle

/-- The first half of a line break is passed over; with any other byte the search is over, or goes on
behind it. -/
theorem run_cons_cases (n : Nat) (s : Span) (b : UInt8) (bs : List UInt8) (h : ContextSearch) :
    (b = carriageReturn ∧ bs.head? = some lineFeed ∧ run n s (b :: bs) h = run n s bs h.pass) ∨
      (¬ (b = carriageReturn ∧ bs.head? = some lineFeed) ∧
        ((h.turn n s b).2 = true ∧ run n s (b :: bs) h = (h.turn n s b).1 ∨
          (h.turn n s b).2 = false ∧ run n s (b :: bs) h = run n s bs (h.turn n s b).1)) := by
  rw [run]
  by_cases hbreak : b = carriageReturn ∧ bs.head? = some lineFeed
  · exact .inl ⟨hbreak.1, hbreak.2, if_pos hbreak⟩
  · rw [if_neg hbreak]
    refine .inr ⟨hbreak, ?_⟩
    obtain ⟨k, ended⟩ := h.turn n s b
    cases ended with
    | true => exact .inl ⟨rfl, rfl⟩
    | false => exact .inr ⟨rfl, rfl⟩

/-- The search ends before the span does exactly if the text does. -/
theorem offset_run_lt_iff (n : Nat) (s : Span) (bs : List UInt8) (h : ContextSearch) :
    (run n s bs h).offset < s.start + s.length - 1 ↔
      h.offset + bs.length < s.start + s.length - 1 := by
  induction bs generalizing h with
  | nil => rfl
  | cons b bs ih =>
    rw [List.length_cons]
    rcases run_cons_cases n s b bs h with ⟨-, -, hrun⟩ | ⟨-, ⟨hover, hrun⟩ | ⟨-, hrun⟩⟩
    · rw [hrun, ih, offset_pass]
      omega
    · have hle := le_of_turn hover
      rw [hrun, offset_turn]
      omega
    · rw [hrun, ih, offset_turn]
      omega

/-- The search fails exactly if the span reaches further than one byte behind the text. -/
theorem find_eq_none_iff :
    find n s bs = none ↔ isOutOfBounds bs.length s := by
  have hrun := offset_run_lt_iff n s bs start
  simp only [find, isOutOfBounds, decide_eq_true_eq]
  rw [show start.offset = 0 from rfl] at hrun
  split
  · rename_i hlt
    exact iff_of_true rfl (by omega)
  · rename_i hlt
    exact iff_of_false (by simp) (by omega)

/-- In a text too, a span is not found exactly if it reaches further than one byte behind it. -/
theorem readSpan_eq_none_iff {source : String} :
    readSpan source s n = none ↔ isOutOfBounds source.utf8ByteSize s := find_eq_none_iff

/-! ## The place of a span -/

/-- With no lines of context, a search that goes on has none, and the span is not reached. -/
def IsBare (h : ContextSearch) : Prop := h.before = [] ∧ h.reached = false

/-- The column behind a byte, of that behind the bytes before it. -/
def columnBehind (column : Nat) (b : UInt8) : Nat := if b = lineFeed then 0 else column + 1

theorem turn_of_start_le (hbare : h.IsBare) (hstart : s.start ≤ h.offset) :
    (h.turn 0 s b).1.line = h.line ∧ (h.turn 0 s b).1.column = h.column ∧
      ((h.turn 0 s b).2 = false → (h.turn 0 s b).1.IsBare) := by
  obtain ⟨hbefore, hreached⟩ := hbare
  unfold turn look settle pass IsBare
  grind

theorem turn_of_lt_start (hbare : h.IsBare) (hstart : h.offset < s.start)
    (hb : b ≠ carriageReturn) :
    (h.turn 0 s b).1.line = h.line + [b].count lineFeed ∧
      (h.turn 0 s b).1.column = columnBehind h.column b ∧
      ((h.turn 0 s b).2 = false → (h.turn 0 s b).1.IsBare) := by
  obtain ⟨hbefore, hreached⟩ := hbare
  unfold turn look settle pass IsBare breakBefore columnBehind
  grind

/-- What is behind the start of the span does not change its place. -/
theorem run_of_start_le (hbare : h.IsBare) (hstart : s.start ≤ h.offset) :
    (run 0 s bs h).line = h.line ∧ (run 0 s bs h).column = h.column := by
  induction bs generalizing h with
  | nil => exact ⟨rfl, rfl⟩
  | cons b bs ih =>
    obtain ⟨hline, hcolumn, hnext⟩ := turn_of_start_le (b := b) hbare hstart
    rcases run_cons_cases 0 s b bs h with ⟨-, -, hrun⟩ | ⟨-, ⟨-, hrun⟩ | ⟨hgoes, hrun⟩⟩
    · rw [hrun]
      exact ih hbare (Nat.le_succ_of_le hstart)
    · rw [hrun]
      exact ⟨hline, hcolumn⟩
    · have hstart : s.start ≤ (h.turn 0 s b).1.offset := by
        rw [offset_turn]
        exact Nat.le_succ_of_le hstart
      obtain ⟨hl, hc⟩ := ih (hnext hgoes) hstart
      rw [hrun]
      exact ⟨hl.trans hline, hc.trans hcolumn⟩

/-- The line feeds in front of the span are counted, and the columns from the last of them on. -/
theorem run_front {front back : List UInt8} (hbare : h.IsBare)
    (hstart : h.offset + front.length = s.start)
    (hpaired : Paired carriageReturn lineFeed (front ++ back))
    (hlast : front.getLast? ≠ some carriageReturn) :
    (run 0 s (front ++ back) h).line = h.line + front.count lineFeed ∧
      (run 0 s (front ++ back) h).column = front.foldl columnBehind h.column := by
  induction front generalizing h with
  | nil => exact run_of_start_le hbare (Nat.le_of_eq hstart.symm)
  | cons b front ih =>
    obtain ⟨hb, hpaired⟩ := hpaired
    rw [List.length_cons] at hstart
    rw [List.cons_append]
    have hlast' : front.getLast? ≠ some carriageReturn := fun hfront =>
      hlast (by rw [List.getLast?_cons, hfront]; rfl)
    rcases run_cons_cases 0 s b (front ++ back) h with ⟨rfl, hnext, hrun⟩ | ⟨hbreak, hrun⟩
    · -- The line feed behind the carriage return is in front of the span too, and starts the count anew.
      cases front with
      | nil => exact absurd rfl hlast
      | cons c front =>
        obtain rfl : c = lineFeed := Option.some.inj hnext
        have hoffset : h.pass.offset + (lineFeed :: front).length = s.start := by
          rw [offset_pass, ← hstart]
          omega
        rw [hrun]
        exact ih (h := h.pass) hbare hoffset hpaired hlast'
    · have hne : b ≠ carriageReturn := fun heq => hbreak ⟨heq, hb heq⟩
      obtain ⟨hline, hcolumn, hnext⟩ := turn_of_lt_start hbare (b := b) (s := s) (by omega) hne
      have hcount : (b :: front).count lineFeed = [b].count lineFeed + front.count lineFeed := by
        rw [← List.singleton_append, List.count_append]
      rw [List.foldl_cons, ← hcolumn, hcount, ← Nat.add_assoc, ← hline]
      rcases hrun with ⟨hover, hrun⟩ | ⟨hgoes, hrun⟩
      · -- The span is empty, and this byte is the last in front of it.
        have hle := le_of_turn hover
        have hempty : front = [] := List.length_eq_zero_iff.1 (by omega)
        rw [hrun, hempty]
        exact ⟨rfl, rfl⟩
      · rw [hrun]
        exact ih (hnext hgoes) (by rw [offset_turn]; omega) hpaired hlast'

/-- With no lines of context, the search finds the line and the column of the start of the span. -/
theorem find_place {front back : List UInt8} (hstart : front.length = s.start)
    (hpaired : Paired carriageReturn lineFeed (front ++ back))
    (hlast : front.getLast? ≠ some carriageReturn)
    (hbounds : isOutOfBounds (front ++ back).length s = false) :
    ∃ c, find 0 s (front ++ back) = some c ∧ c.line = front.count lineFeed ∧
      c.column = front.foldl columnBehind 0 := by
  have hbare : start.IsBare := ⟨rfl, rfl⟩
  obtain ⟨hline, hcolumn⟩ := run_front hbare (by rw [← hstart]; exact Nat.zero_add _) hpaired hlast
  have hsome : (find 0 s (front ++ back)).isSome := by
    rw [← Option.not_isNone, Bool.not_eq_true', ← Bool.not_eq_true, Option.isNone_iff_eq_none,
      find_eq_none_iff, hbounds]
    exact Bool.false_ne_true
  obtain ⟨c, hc⟩ := Option.isSome_iff_exists.1 hsome
  refine ⟨c, hc, ?_⟩
  rw [find] at hc
  split at hc
  · cases hc
  · cases hc
    exact ⟨hline.trans (Nat.zero_add _), hcolumn⟩

end ContextSearch

end MonkeyLang
