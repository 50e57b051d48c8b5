import SmallLisp.Proofs.Session.Related

/-!
# Running out of levels

A run that does not run out of levels never came to a place where it did. More levels change nothing
about it, and neither does anything else that may happen where the levels are used up. Main
statements: what a machine does without running out of levels is kept by the forms, operations and
calls (`KeptBy.everythingKept`), so it is kept with more levels (`machine_keptBy`) and with another
machine that takes over where the levels are used up (`machine_keptBy_rescued`). Writing a list runs
out of levels in its first element that cannot be written (`text_exhausted_iff`), comparing two
lists in the first elements that cannot be compared (`equal_exhausted_iff`).
-/

namespace SmallLisp

/-! ## Writing and comparing -/

namespace Value

/-- The values whose texts the text of a value is made of. -/
def writtenInside : Value → List Value
  | cons _ head rest => head :: rest.toList
  | closure _ body => body.toList
  | _ => []

theorem atom_text_ne_exhausted (a : Atom) : a.text ≠ .error .stackExhausted := by
  intro h
  cases a with
  | number n =>
    cases n with
    | int n =>
      rw [Atom.text, Number.text] at h
      split at h
      · cases h
      · cases h
    | float x => cases h
  | _ => cases h

/-- Writing runs out of levels in the first value inside that cannot be written. -/
theorem text_exhausted_iff (levels : Nat) (v : Value) :
    v.text (levels + 1) = .error .stackExhausted ↔
      ∃ before u after, v.writtenInside = before ++ u :: after ∧
        (∀ t ∈ before, ∃ s, t.text levels = .ok s) ∧ u.text levels = .error .stackExhausted := by
  rw [← Except.mapM_eq_error]
  have none : ¬ ([].mapM (text levels) = .error .stackExhausted) := nofun
  cases v with
  | nil => exact iff_of_false nofun none
  | atom a => exact iff_of_false (atom_text_ne_exhausted a) none
  | cons id head rest =>
    rw [text, Except.bind_eq_error, writtenInside]
    simp [pure, Except.pure]
  | closure header body =>
    rw [text, Except.bind_eq_error, writtenInside]
    simp [pure, Except.pure]
  | builtin op =>
    refine iff_of_false (fun h => ?_) none
    cases h

/-- The comparison of two lists comes to these two elements: the elements before them are equal, and
the lists come to no cell that they share. -/
inductive ComesTo (equalHeads : Value → Value → Except Error Bool) :
    Value → Value → Value → Value → Prop
  | here {i j : Nat} {a b as bs : Value} (apart : i ≠ j) :
      ComesTo equalHeads (cons i a as) (cons j b bs) a b
  | behind {i j : Nat} {a b as bs x y : Value} (apart : i ≠ j) (same : equalHeads a b = .ok true)
      (others : ComesTo equalHeads as bs x y) :
      ComesTo equalHeads (cons i a as) (cons j b bs) x y

theorem equalLists_eq_error {f : Value → Value → Except Error Bool} {a b : Value} {e : Error} :
    equalLists f a b = .error e ↔ ∃ x y, ComesTo f a b x y ∧ f x y = .error e := by
  constructor
  · intro h
    induction a generalizing b with
    | cons i a as _ ih =>
      cases b with
      | cons j b bs =>
        rw [equalLists] at h
        split at h
        · cases h
        rename_i apart
        rcases Except.bind_eq_error.1 h with fails | ⟨same, first, fails⟩
        · exact ⟨a, b, .here apart, fails⟩
        · cases same with
          | false => cases fails
          | true =>
            obtain ⟨x, y, comes, fails⟩ := ih fails
            exact ⟨x, y, .behind apart first comes, fails⟩
      | _ => cases h
    | _ => cases h
  · rintro ⟨x, y, comes, fails⟩
    induction comes with
    | here apart => rw [equalLists, if_neg apart, fails]; rfl
    | behind apart same _ ih =>
      rw [equalLists, if_neg apart, same]
      exact ih fails

/-- Comparing runs out of levels in the first two elements that cannot be compared. -/
theorem equal_exhausted_iff (levels : Nat) (a b : Value) :
    a.equal (levels + 1) b = .error .stackExhausted ↔
      ∃ x y, ComesTo (equal levels) a b x y ∧ x.equal levels y = .error .stackExhausted :=
  equalLists_eq_error

end Value

/-- Equal neighbours are passed over. -/
theorem Builtin.equalAll_of_neighbours {levels : Nat} {before after : List Value} {x y : Value}
    {e : Error} (same : equalAll levels (before ++ [x]) = .ok true)
    (fails : x.equal levels y = .error e) :
    equalAll levels (before ++ x :: y :: after) = .error e := by
  induction before with
  | nil =>
    rw [List.nil_append, equalAll, fails]
    rfl
  | cons c before ih =>
    cases before with
    | nil =>
      rw [List.singleton_append, equalAll_pair] at same
      rw [List.singleton_append, equalAll, same]
      exact ih rfl
    | cons d before =>
      obtain ⟨first, compared, others⟩ := Except.bind_eq_ok.1 same
      cases first with
      | false => cases others
      | true =>
        rw [List.cons_append, List.cons_append, equalAll, compared]
        exact ih others

/-! ## Runs -/

namespace EvalM

variable {α : Type}

/-- Started in one state, the run runs out of levels and leaves the other. -/
def RunsOut (x : EvalM α) (w w' : World) : Prop :=
  x.runFrom w = (.error (.error .stackExhausted), w')

/-- `y` does what `x` does, from every state from which `x` does not run out of levels: with the
same value, error or other end, and the same state behind it. -/
def KeptBy (x y : EvalM α) : Prop := ∀ w, (∃ w', x.RunsOut w w') ∨ x.runFrom w = y.runFrom w

theorem keptBy_iff {x y : EvalM α} :
    x.KeptBy y ↔ (keptUnless (· = .error .stackExhausted)).Rel x y := by
  simp [KeptBy, RunsOut, keptUnless, StopsFor]

theorem RunsOut.keptBy {x : EvalM α} (h : ∀ w, x.RunsOut w w) (y : EvalM α) : x.KeptBy y :=
  fun w => .inl ⟨w, h w⟩

/-- Sequencing respects what is kept. -/
def depthOrder : Congruence EvalM where
  Rel x y := x.KeptBy y
  refl _ _ := .inr rfl
  bind hx hf := keptBy_iff.2 ((keptUnless _).bind (keptBy_iff.1 hx) fun a => keptBy_iff.1 (hf a))

theorem keptBy_ofExcept {x y : Except Error α} (h : x ≤ y) : (ofExcept x).KeptBy (ofExcept y) := by
  rcases h with rfl | rfl
  · exact RunsOut.keptBy (fun _ => rfl) _
  · exact depthOrder.refl _

/-- The run, with another that takes over from the state in which it runs out of levels. -/
def rescue (x y : EvalM α) : EvalM α := ExceptT.mk fun w =>
  match x.runFrom w with
  | (.error (.error .stackExhausted), w') => y.runFrom w'
  | other => other

/-- Nothing is taken over from a run that does not run out of levels. -/
theorem runFrom_rescue {x : EvalM α} {w : World} (h : ¬ ∃ w', x.RunsOut w w') (y : EvalM α) :
    (x.rescue y).runFrom w = x.runFrom w := by
  show (match x.runFrom w with
    | (.error (.error .stackExhausted), w') => y.runFrom w'
    | other => other) = x.runFrom w
  split
  · rename_i w' run
    exact absurd ⟨w', run⟩ h
  · rfl

theorem KeptBy.rescue {x y : EvalM α} (h : x.KeptBy y) (z : EvalM α) : x.KeptBy (y.rescue z) := by
  intro w
  rcases h w with out | same
  · exact .inl out
  · by_cases out : ∃ w', x.RunsOut w w'
    · exact .inl out
    · refine .inr (same.trans (runFrom_rescue ?_ z).symm)
      rintro ⟨w', run⟩
      exact out ⟨w', same.trans run⟩

end EvalM

open EvalM (depthOrder)

namespace Machine

variable {m m' : Machine}

/-- Where the first machine does not run out of levels, the second does the same. Where it does, the
second may do anything. -/
structure KeptBy (m m' : Machine) : Prop where
  levels : m.levels ≤ m'.levels
  eval : ∀ e env ctx, (m.eval e env ctx).KeptBy (m'.eval e env ctx)
  call : ∀ caller fn args, (m.call caller fn args).KeptBy (m'.call caller fn args)

/-- Where the first machine does not run out of levels, the second does the same: in expressions,
special forms, operations and calls, and in programs, sources and at the start of a session. -/
structure EverythingKept (m m' : Machine) : Prop where
  eval : ∀ e env ctx, (m.eval e env ctx).KeptBy (m'.eval e env ctx)
  block : ∀ es env ctx, (m.evalBlock env ctx es).KeptBy (m'.evalBlock env ctx es)
  expression : ∀ e env ctx, (m.evalExpr e env ctx).KeptBy (m'.evalExpr e env ctx)
  form : ∀ form operands env ctx,
    (m.evalForm form operands env ctx).KeptBy (m'.evalForm form operands env ctx)
  operation : ∀ caller op args, (m.runBuiltin caller op args).KeptBy (m'.runBuiltin caller op args)
  once : ∀ caller fn args, (m.callOnce caller fn args).KeptBy (m'.callOnce caller fn args)
  chain : ∀ caller bounces fn args,
    (m.runChain caller bounces fn args).KeptBy (m'.runChain caller bounces fn args)
  call : ∀ caller fn args, (m.call caller fn args).KeptBy (m'.call caller fn args)
  program : ∀ root ds, (Session.runProgram m root ds).KeptBy (Session.runProgram m' root ds)
  source : ∀ root source,
    (Session.runSource m root source).KeptBy (Session.runSource m' root source)
  start : ∀ first, (Session.start m first).KeptBy (Session.start m' first)

namespace KeptBy

theorem related (h : m.KeptBy m') : Related depthOrder m m' where
  parts byLevels := EvalM.keptBy_ofExcept (byLevels h.levels)
  eval := h.eval
  call := h.call

theorem runChain (h : m.KeptBy m') (caller : FrameId) (bounces : Nat) (fn : Value)
    (args : List Value) :
    (m.runChain caller bounces fn args).KeptBy (m'.runChain caller bounces fn args) :=
  h.related.runChain caller (Nat.le_refl bounces) (absurd · (Nat.lt_irrefl bounces)) fn args

theorem next (h : m.KeptBy m') (bounces : Nat) : (m.next bounces).KeptBy (m'.next bounces) where
  levels := Nat.succ_le_succ h.levels
  eval := h.related.evalExpr
  call caller := h.runChain caller bounces

/-- No form, no operation and no call puts anything in the place of levels that run out inside it:
whatever happened there instead, it would do the same or run out of levels itself. -/
theorem everythingKept (h : m.KeptBy m') : m.EverythingKept m' where
  eval := h.eval
  block es env ctx := h.related.evalBlock env ctx es
  expression := h.related.evalExpr
  form := h.related.evalForm
  operation := h.related.runBuiltin
  once := h.related.callOnce
  chain := h.runChain
  call := h.call
  program := h.related.runProgram
  source := h.related.runSource
  start := h.related.start

end KeptBy

/-- The machine without levels is kept by every machine. -/
theorem exhausted_keptBy (m : Machine) : exhausted.KeptBy m where
  levels := Nat.zero_le m.levels
  eval _ _ _ := EvalM.RunsOut.keptBy (fun _ => rfl) _
  call _ _ _ := EvalM.RunsOut.keptBy (fun _ => rfl) _

/-- The machine, with another that takes over wherever an expression or a call runs out of
levels. -/
def rescuedBy (m rescuer : Machine) : Machine where
  levels := m.levels
  eval e env ctx := (m.eval e env ctx).rescue (rescuer.eval e env ctx)
  call caller fn args := (m.call caller fn args).rescue (rescuer.call caller fn args)

theorem KeptBy.rescuedBy (h : m.KeptBy m') (rescuer : Machine) :
    m.KeptBy (m'.rescuedBy rescuer) where
  levels := h.levels
  eval e env ctx := (h.eval e env ctx).rescue _
  call caller fn args := (h.call caller fn args).rescue _

end Machine

/-- The evaluator with so many levels, with another machine that takes over at each of them, and
below the last. -/
def rescued (rescuer : Machine) (bounces : Nat) : Nat → Machine
  | 0 => rescuer
  | depth + 1 => ((rescued rescuer bounces depth).next bounces).rescuedBy rescuer

/-- More levels change nothing unless the levels run out. -/
theorem machine_keptBy (bounces : Nat) {depth depth' : Nat} (le : depth ≤ depth') :
    (machine bounces depth).KeptBy (machine bounces depth') := by
  induction depth generalizing depth' with
  | zero => exact Machine.exhausted_keptBy _
  | succ depth ih =>
    obtain ⟨depth', rfl⟩ : ∃ k, depth' = k + 1 := ⟨depth' - 1, by omega⟩
    exact (ih (Nat.le_of_succ_le_succ le)).next bounces

/-- Nothing that might happen where the levels run out changes anything unless they do. -/
theorem machine_keptBy_rescued (rescuer : Machine) (bounces depth : Nat) :
    (machine bounces depth).KeptBy (rescued rescuer bounces depth) := by
  induction depth with
  | zero => exact Machine.exhausted_keptBy rescuer
  | succ depth ih => exact (ih.next bounces).rescuedBy rescuer

/-! ## Operations inside which levels run out -/

namespace Machine

variable {m : Machine} {caller : FrameId} {w w' : World}

/-- The call that `apply` makes runs out of levels. -/
theorem apply_runsOut {fn list : Value} (isList : list.isList = true)
    (out : (m.call caller fn list.toList).RunsOut w w') :
    (m.runBuiltin caller .apply [fn, list]).RunsOut w w' := by
  have given : applyArguments m.levels [fn, list] = .ok (fn, list.toList) := by
    simp [applyArguments, Builtin.two, Builtin.listArgument, isList, bind, Except.bind, pure,
      Except.pure]
  show (EvalM.ofExcept (applyArguments m.levels [fn, list]) >>= _).runFrom w = _
  rw [given]
  exact out

/-- The text of an argument of `print` runs out of levels, and nothing is printed. -/
theorem print_runsOut {before after : List Value} {v : Value}
    (texts : ∀ u ∈ before, ∃ s, Builtin.printedText m.levels u = .ok s)
    (out : Builtin.printedText m.levels v = .error .stackExhausted) :
    (m.runBuiltin caller .print (before ++ v :: after)).RunsOut w w := by
  have fails := Except.mapM_eq_error.2 ⟨before, v, after, rfl, texts, out⟩
  have line : Builtin.line m.levels (before ++ v :: after) = .error .stackExhausted :=
    Except.bind_eq_error.2 (.inl fails)
  show (EvalM.ofExcept (Builtin.line m.levels (before ++ v :: after)) >>= _).runFrom w = _
  rw [line]
  rfl

/-- The comparison of two neighbours runs out of levels. -/
theorem equals_runsOut {before after : List Value} {x y : Value}
    (same : Builtin.equalAll m.levels (before ++ [x]) = .ok true)
    (out : x.equal m.levels y = .error .stackExhausted) :
    (m.runBuiltin caller .equals (before ++ x :: y :: after)).RunsOut w w := by
  have fails : Builtin.equalAll m.levels (before ++ x :: y :: after) = .error .stackExhausted :=
    Builtin.equalAll_of_neighbours same out
  show (EvalM.ofExcept (Builtin.equalAll m.levels (before ++ x :: y :: after) >>= _)).runFrom w = _
  rw [fails]
  rfl

end Machine

/-- A higher limit replaces nothing but running out of levels. What an evaluator does without
running out, in expressions, blocks, calls, programs, sources and at the start of a session, one
with more levels does too: it ends with the same value or error and leaves the same state. No form,
operation or call makes anything else of levels that run out inside it: it would do the same, or run
out itself, whatever another machine did there instead, at the level below (`KeptBy`) or at any
depth (`rescued`). In particular `apply` runs out where its call does, and `print` and `=` do at the
first value that cannot be written and the first neighbours that cannot be compared, with nothing
printed. Writing and comparing lists run out just where their elements do. -/
theorem deeper_limit_keeps_runs :
    (∀ bounces depth depth', depth ≤ depth' →
      (machine bounces depth).EverythingKept (machine bounces depth')) ∧
    (∀ m m' : Machine, m.KeptBy m' → m.EverythingKept m') ∧
    (∀ rescuer bounces depth,
      (machine bounces depth).EverythingKept (rescued rescuer bounces depth)) ∧
    (∀ (m : Machine) caller fn list w w', list.isList = true →
      (m.call caller fn list.toList).RunsOut w w' →
      (m.runBuiltin caller .apply [fn, list]).RunsOut w w') ∧
    (∀ (m : Machine) caller before v after w,
      (∀ u ∈ before, ∃ s, Builtin.printedText m.levels u = .ok s) →
      Builtin.printedText m.levels v = .error .stackExhausted →
      (m.runBuiltin caller .print (before ++ v :: after)).RunsOut w w) ∧
    (∀ (m : Machine) caller before x y after w,
      Builtin.equalAll m.levels (before ++ [x]) = .ok true →
      x.equal m.levels y = .error .stackExhausted →
      (m.runBuiltin caller .equals (before ++ x :: y :: after)).RunsOut w w) ∧
    (∀ levels (v : Value), v.text (levels + 1) = .error .stackExhausted ↔
      ∃ before u after, v.writtenInside = before ++ u :: after ∧
        (∀ t ∈ before, ∃ s, t.text levels = .ok s) ∧ u.text levels = .error .stackExhausted) ∧
    ∀ levels (a b : Value), a.equal (levels + 1) b = .error .stackExhausted ↔
      ∃ x y, Value.ComesTo (Value.equal levels) a b x y ∧
        x.equal levels y = .error .stackExhausted := by
  refine ⟨?_, ?_, ?_, ?_, ?_, ?_, Value.text_exhausted_iff, Value.equal_exhausted_iff⟩
  · intro bounces depth depth' le
    exact (machine_keptBy bounces le).everythingKept
  · exact fun m m' kept => kept.everythingKept
  · intro rescuer bounces depth
    exact (machine_keptBy_rescued rescuer bounces depth).everythingKept
  · exact fun m caller fn list w w' isList out => Machine.apply_runsOut isList out
  · exact fun m caller before v after w texts out => Machine.print_runsOut texts out
  · exact fun m caller before x y after w same out => Machine.equals_runsOut same out

/-- A source that prints a list and then fails. With three levels they run out in writing the list,
with four and more, and with a rescuer below the four, it ends with its error. Operations on a list
run out where one level is not enough for its element, and `apply` where no call can be made. -/
theorem deeper_limit_keeps_runs_print :
    let one := Value.number (.int 1)
    let list (id : Nat) := Value.cons id one .nil
    let bindings := [Builtin.car, .list, .print].map fun op => (op.symbol, Value.builtin op)
    let w : World := ⟨⟨#[⟨none, bindings⟩]⟩, 0, #[]⟩
    let run (m : Machine) := (Session.runSource m 0 "(print (list 1)) (car nil)").runFrom w
    let failed : Except Stop Value × World :=
      (.error (.error (.emptyList .head)), { w with fresh := 7, printed := #["(1)\n"] })
    run (machine 8 3) = (.error (.error .stackExhausted), { w with fresh := 5 }) ∧
      run (machine 8 4) = failed ∧ run (machine 8 1000) = failed ∧
      run (rescued (machine 8 2) 8 4) = failed ∧
      ((machine 8 6).evalForm .begin (list 0) 0 .topLevel).runFrom w = (.ok (.value one), w) ∧
      ((machine 8 1).runBuiltin 0 .print [one, list 0]).RunsOut w w ∧
      ((machine 8 1).runBuiltin 0 .equals [list 0, list 0, list 1]).RunsOut w w ∧
      ((machine 8 0).runBuiltin 0 .apply [.builtin .car, list 0]).RunsOut w w := by
  intro one list bindings w run failed
  obtain ⟨deeper, kept, other, apply, print, equals, -⟩ := deeper_limit_keeps_runs
  have ends : run (machine 8 4) = failed := by decide +kernel
  have enough : ¬ ∃ w', (Session.runSource (machine 8 4) 0 "(print (list 1)) (car nil)").RunsOut
      w w' := by
    rintro ⟨w', out⟩
    exact absurd (ends.symm.trans out) (by simp [failed])
  refine ⟨by decide +kernel, ends, ?_, ?_, ?_, ?_, ?_, ?_⟩
  · have same := (deeper 8 4 1000 (by decide)).source 0 "(print (list 1)) (car nil)" w
    exact (same.resolve_left enough).symm.trans ends
  · have same := (other (machine 8 2) 8 4).source 0 "(print (list 1)) (car nil)" w
    exact (same.resolve_left enough).symm.trans ends
  · have below : (machine 8 1).KeptBy (machine 8 6) := machine_keptBy 8 (by decide)
    have value : ((machine 8 1).evalForm .begin (list 0) 0 .topLevel).runFrom w =
      (.ok (.value one), w) := rfl
    have same := (kept _ _ below).form .begin (list 0) 0 .topLevel w
    refine (same.resolve_left ?_).symm.trans value
    rintro ⟨w', out⟩
    cases value.symm.trans out
  · refine print (machine 8 1) 0 [one] (list 0) [] w (fun u member => ⟨"1", ?_⟩) rfl
    rw [List.mem_singleton.1 member]
    decide +kernel
  · exact equals (machine 8 1) 0 [list 0] (list 0) (list 1) [] w (by decide) rfl
  · exact apply (machine 8 0) 0 (.builtin .car) (list 0) w w rfl rfl

end SmallLisp
