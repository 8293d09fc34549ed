import MonkeyLang.Program.Pass
import MonkeyLang.Proofs.Window

/-!
# The path of a pass

The parts of a pass are given a time.  Once it is enough, more of it makes no difference
(`Work.program_persists_add`).

A part changes the pass by one step at a time, and all that a step can do is in `Pass.Step`.  That the window
is the first one moved some number of times is kept by each step (`Pass.Step.exists_reach`), and so it is
true of all states on the path of a pass (`Pass.Path.exists_reach`).  `Journal.At` says of a journal that its
pass has come along such a path to index `i` of the tokens that its scanner had left, and `Journal.Goes` what
has become of it between two of them.
-/

namespace MonkeyLang

namespace Work

/-! ## More time -/

variable {α β : Type}

/-- Whatever outcome `part` has, `part'` has it too. -/
def Persists (part part' : Work α) : Prop := ∀ j r, part.run j = some r → part'.run j = some r

theorem Persists.refl (part : Work α) : Persists part part := fun _ _ h => h

theorem persists_failure (part : Work α) : Persists failure part := by
  intro j r h
  cases h

theorem Persists.bind {part part' : Work α} {f f' : α → Work β} (h : Persists part part')
    (hf : ∀ a, Persists (f a) (f' a)) : Persists (part >>= f) (part' >>= f') := by
  intro j r hr
  rw [StateT.run_bind] at hr ⊢
  obtain ⟨⟨a, j'⟩, ha, hr⟩ := Option.bind_eq_some_iff.1 hr
  rw [h j _ ha]
  exact hf a j' r hr

theorem Persists.ite {c : Prop} [Decidable c] {part part' other other' : Work α}
    (h : Persists part part') (ho : Persists other other') :
    Persists (if c then part else other) (if c then part' else other') := by
  split
  · exact h
  · exact ho

/-- A part that goes on only if there is something to go on with. -/
theorem Persists.bind_some {part part' : Work (Option α)} {f f' : Option α → Work (Option β)}
    (h : Persists part part') (hf : ∀ a, Persists (f (some a)) (f' (some a)))
    (hnone : f none = f' none) : Persists (part >>= f) (part' >>= f') := by
  refine h.bind fun o => ?_
  cases o with
  | none =>
    rw [hnone]
    exact .refl _
  | some a => exact hf a

section Expressions

variable {deeper deeper' : Precedence → Work (Option Expression)}

theorem primary_persists (hd : ∀ p, Persists (deeper p) (deeper' p)) :
    Persists (primary deeper) (primary deeper') := by
  refine .bind (.refl now) fun s => ?_
  cases s.current.kind with
  | operator o =>
    refine .ite (.bind (.refl advance) fun _ => ?_) (.refl _)
    exact .bind_some (hd .unary) (fun _ => .refl _) rfl
  | _ => exact .refl _

/-- By induction on the time, as each turn is begun with one less of it. -/
theorem extend_persists (hd : ∀ p, Persists (deeper p) (deeper' p)) (p : Precedence) (n : Nat)
    (left : Expression) : Persists (extend deeper p n left) (extend deeper' p (n + 1) left) := by
  induction n generalizing left with
  | zero => exact persists_failure _
  | succ n ih =>
    rw [extend, extend]
    refine .bind (.refl now) fun s => .ite (.ite ?_ (.refl _)) (.refl _)
    refine .bind (.refl advance) fun _ => .bind (.refl now) fun s => .bind (.refl advance) fun _ => ?_
    exact .bind_some (hd _) (fun right => ih _) rfl

theorem expression_persists (n : Nat) (p : Precedence) :
    Persists (expression n p) (expression (n + 1) p) := by
  induction n generalizing p with
  | zero => exact persists_failure _
  | succ n ih =>
    rw [expression, expression]
    have habove : Persists (above (expression n) p n) (above (expression (n + 1)) p (n + 1)) :=
      .bind_some (primary_persists ih) (fun left => extend_persists ih p n left) rfl
    refine .bind (.refl now) fun s => .ite (.refl _) (.bind (.refl deepen) fun _ => ?_)
    exact .bind habove fun _ => .refl _

end Expressions

theorem ending_persists (n : Nat) (build : Expression → Statement) :
    Persists (ending n build) (ending (n + 1) build) :=
  .bind_some (expression_persists n .lowest) (fun _ => .refl _) rfl

theorem binding_persists (n : Nat) : Persists (binding n) (binding (n + 1)) := by
  refine .bind (.refl now) fun s => .bind (.refl _) fun _ => .ite ?_ (.refl _)
  refine .bind (.refl now) fun name => .bind (.refl _) fun _ => .ite ?_ (.refl _)
  exact .bind (.refl advance) fun _ => ending_persists n _

theorem statement_persists (n : Nat) : Persists (statement n) (statement (n + 1)) := by
  have hreturning : Persists (returning n) (returning (n + 1)) :=
    .bind (.refl now) fun _ => .bind (.refl advance) fun _ => ending_persists n _
  have hplain : Persists (plain n) (plain (n + 1)) := .bind (.refl now) fun _ => ending_persists n _
  refine .bind (.refl now) fun s => ?_
  cases s.current.kind with
  | keyword k =>
    cases k with
    | kwLet => exact binding_persists n
    | kwReturn => exact hreturning
    | _ => exact hplain
  | _ => exact hplain

theorem recovering_persists (begun failed n : Nat) :
    Persists (recovering begun failed n) (recovering begun failed (n + 1)) := by
  induction n with
  | zero => exact persists_failure _
  | succ n ih =>
    rw [recovering, recovering]
    refine .bind (.refl now) fun s => .ite (.refl _) (.bind (.refl _) fun b => .ite (.refl _) ?_)
    exact .bind (.refl advance) fun _ => ih

theorem program_persists (n : Nat) (xs : List Statement) :
    Persists (program n xs) (program (n + 1) xs) := by
  induction n generalizing xs with
  | zero => exact persists_failure _
  | succ n ih =>
    rw [program, program]
    refine .bind (.refl now) fun s => .ite (.refl _) (.bind (statement_persists n) fun o => ?_)
    cases o with
    | some x => exact .bind (.refl advance) fun _ => ih _
    | none =>
      have hrecover : Persists (recover n s.current.span.start) (recover (n + 1) s.current.span.start) :=
        .bind (.refl now) fun _ => recovering_persists _ _ n
      exact .bind hrecover fun _ => ih xs

/-- **Once the time is enough, more of it makes no difference.** -/
theorem program_persists_add (n m : Nat) (xs : List Statement) :
    Persists (program n xs) (program (n + m) xs) := by
  induction m with
  | zero => exact .refl _
  | succ m ih => exact fun j r h => program_persists (n + m) xs j r (ih j r h)

end Work

/-! ## The path of a pass -/

/-- One step of a pass: its window is moved, an error is reported, or the level changes. -/
inductive Pass.Step : Pass → Pass → Prop
  | advance (s : Pass) : Step s { s with toWindow := s.toWindow.advance }
  | report (s : Pass) (e : ParseError) : Step s { s with errors := s.errors ++ [e] }
  | deepen (s : Pass) : Step s { s with depth := s.depth + 1 }
  | rise (s : Pass) : Step s { s with depth := s.depth - 1 }

/-- One step after the other, through all of the given states, leads from the first state to the last. -/
inductive Pass.Path (first : Pass) : List Pass → Pass → Prop
  | start : Path first [] first
  | step {past : List Pass} {s s' : Pass} : Path first past s → Step s s' →
      Path first (past ++ [s]) s'

variable {scanner : Scanner} {settings : Settings}

/-- **A step moves the window by at most one token.** -/
theorem Pass.Step.exists_reach {s s' : Pass} (h : Step s s') {i : Nat}
    (hs : s.toWindow = .reach scanner i) : ∃ k, s'.toWindow = .reach scanner k := by
  cases h with
  | advance => exact ⟨i + 1, by rw [Window.reach_succ, hs]⟩
  | report | deepen | rise => exact ⟨i, hs⟩

/-- By induction along the path, with one case for each kind of step. -/
theorem Pass.Path.exists_reach {past : List Pass} {s : Pass}
    (h : Path (.ofScanner scanner settings) past s) :
    ∀ s' ∈ past ++ [s], ∃ i, s'.toWindow = .reach scanner i := by
  induction h with
  | start =>
    intro s' hs'
    rw [List.mem_singleton.1 hs']
    exact ⟨0, rfl⟩
  | @step past s s' _ hstep ih =>
    obtain ⟨i, hi⟩ := ih s (by simp)
    intro u hu
    rcases List.mem_append.1 hu with hu | hu
    · exact ih u hu
    · rw [List.mem_singleton.1 hu]
      exact hstep.exists_reach hi

namespace Journal

/-- The window of the pass is at index `i` of the tokens that were left.  The pass has come there step by
step, and what it has asked for was the line of a token behind the first. -/
structure At (scanner : Scanner) (settings : Settings) (j : Journal) (i : Nat) : Prop where
  settings_eq : j.settings = settings
  window_eq : j.toWindow = .reach scanner i
  path : Pass.Path (.ofScanner scanner settings) j.past j.toPass
  asked : ∀ q ∈ j.asked, q.1 ∈ j.reached ∧ q.2 = q.1.startsLine ∧
    ∃ k, q.1.toWindow = .reach scanner (k + 1)

/-- The pass has gone on to index `i`, is on its level again, and has reported `new` errors. -/
structure Goes (scanner : Scanner) (settings : Settings) (j j' : Journal) (i : Nat)
    (new : List ParseError) : Prop where
  arrives : j'.At scanner settings i
  depth_eq : j'.depth = j.depth
  errors_eq : j'.errors = j.errors ++ new

variable {j j' j'' : Journal} {i k m : Nat}

theorem At.shows (h : j.At scanner settings i) : j.toWindow.Shows scanner i := by
  rw [h.window_eq]
  exact Window.shows_reach scanner i

theorem At.current_eq (h : j.At scanner settings i) : j.current = scanner.tokenAt i :=
  h.shows.current_eq

theorem At.ahead_eq (h : j.At scanner settings i) : j.ahead = scanner.tokenAt (i + 1) :=
  h.shows.ahead_eq

theorem At.current_of_cons (h : j.At scanner settings i) {t : Lexeme} {ts : List Lexeme}
    (hts : scanner.lexemesFrom i = t :: ts) : j.current = t.token := by
  rw [h.current_eq, Scanner.tokenAt_of_cons hts]

theorem At.ahead_of_cons (h : j.At scanner settings i) {t : Lexeme} {ts : List Lexeme}
    (hts : scanner.lexemesFrom (i + 1) = t :: ts) : j.ahead = t.token := by
  rw [h.ahead_eq, Scanner.tokenAt_of_cons hts]

theorem At.kind_of_nil (h : j.At scanner settings i) (hts : scanner.lexemesFrom i = []) :
    j.current.kind = .endOfText := by
  rw [h.current_eq, Scanner.tokenAt_of_nil hts]
  rfl

theorem At.enter (h : j.At scanner settings i) {s : Pass} (hstep : Pass.Step j.toPass s)
    (hsettings : s.settings = settings) (hwindow : s.toWindow = .reach scanner k) :
    (j.enter s).At scanner settings k := by
  refine ⟨hsettings, hwindow, .step h.path hstep, ?_⟩
  intro q hq
  obtain ⟨hmem, hanswer, hk⟩ := h.asked q hq
  exact ⟨List.mem_append_left _ hmem, hanswer, hk⟩

theorem Goes.refl (h : j.At scanner settings i) : Goes scanner settings j j i [] :=
  ⟨h, rfl, (List.append_nil _).symm⟩

theorem Goes.trans {new new' : List ParseError} (h : Goes scanner settings j j' i new)
    (h' : Goes scanner settings j' j'' k new') : Goes scanner settings j j'' k (new ++ new') := by
  refine ⟨h'.arrives, h'.depth_eq.trans h.depth_eq, ?_⟩
  rw [h'.errors_eq, h.errors_eq, List.append_assoc]

/-- The journal with the window moved on. -/
def moved (j : Journal) : Journal := j.enter { j.toPass with toWindow := j.toWindow.advance }

/-- The journal with an error reported. -/
def blamed (j : Journal) (problem : Problem) (token : Token) : Journal :=
  j.enter { j.toPass with errors := j.errors ++ [⟨problem, token⟩] }

theorem At.moved (h : j.At scanner settings i) : Goes scanner settings j j.moved (i + 1) [] := by
  refine ⟨h.enter (.advance _) h.settings_eq ?_, rfl, (List.append_nil _).symm⟩
  rw [Window.reach_succ, ← h.window_eq]

theorem At.blamed (h : j.At scanner settings i) (problem : Problem) (token : Token) :
    Goes scanner settings j (j.blamed problem token) i [⟨problem, token⟩] :=
  ⟨h.enter (.report _ _) h.settings_eq h.window_eq, rfl, rfl⟩

/-- The journal with the question entered whether a line begins with the current token. -/
def consulted (j : Journal) : Journal := { j with asked := j.asked ++ [(j.toPass, j.startsLine)] }

/-- A line is asked for behind the first token only, so the window has been moved then. -/
theorem At.consulted (h : j.At scanner settings (i + 1)) :
    Goes scanner settings j j.consulted (i + 1) [] := by
  refine ⟨⟨h.settings_eq, h.window_eq, h.path, ?_⟩, rfl, (List.append_nil _).symm⟩
  intro q hq
  rcases List.mem_append.1 hq with hq | hq
  · exact h.asked q hq
  · rw [List.mem_singleton.1 hq]
    exact ⟨List.mem_append_right _ List.mem_cons_self, rfl, i, h.window_eq⟩

/-- The journal with the pass on the next level. -/
def deepened (j : Journal) : Journal := j.enter { j.toPass with depth := j.depth + 1 }

/-- The journal with the pass on the level before. -/
def risen (j : Journal) : Journal := j.enter { j.toPass with depth := j.depth - 1 }

theorem At.deepened (h : j.At scanner settings i) : j.deepened.At scanner settings i :=
  h.enter (.deepen _) h.settings_eq h.window_eq

theorem At.risen (h : j.At scanner settings i) : j.risen.At scanner settings i :=
  h.enter (.rise _) h.settings_eq h.window_eq

/-- Behind a part on the next level the pass is on its level again. -/
theorem Goes.risen {new : List ParseError} (h : Goes scanner settings j.deepened j' i new) :
    Goes scanner settings j j'.risen i new := by
  refine ⟨h.arrives.risen, ?_, h.errors_eq⟩
  show j'.depth - 1 = j.depth
  rw [h.depth_eq]
  exact Nat.add_sub_cancel j.depth 1

end Journal

end MonkeyLang
