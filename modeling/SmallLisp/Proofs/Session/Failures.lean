import SmallLisp.Proofs.Eval.Failures
import SmallLisp.Proofs.Reader.Grammar
import SmallLisp.Proofs.Reader.Words
import SmallLisp.Proofs.Session.Pieces
import SmallLisp.Proofs.Session.Related
import SmallLisp.Proofs.State.Sessions
import SmallLisp.Proofs.State.Watched

/-!
# Failures of sessions

Errors outside the language come from numbers out of range: an integer with too many digits is not
read and not written, an integer that no float comes near does not become one, and neither does a
quotient of integers. The evaluator is watched for such numbers, in the expressions that it
evaluates, in the calls that it makes or hands back, and in their values. Main statement: a run that
the watch lets pass fails only with errors of the language (`failures_in_language`).
-/

namespace SmallLisp

open EvalM (alarmOrder between expect)

namespace EvalM

variable {α : Type} {alarm : World}

theorem expect_inLanguage (alarm : World) (holds : Prop) :
    (expect alarm fun _ => holds).InLanguage fun _ => holds := by
  rintro w r w' run
  by_cases h : holds
  · rw [expect_of_holds h] at run
    cases run
    exact ⟨nofun, fun _ _ => h⟩
  · rw [show _ = _ from alarmed_of_not_holds h] at run
    cases run
    exact ⟨nofun, nofun⟩

/-- What is looked for before may be used, and what is looked for after is guaranteed. -/
theorem between_inLanguage {before : Prop} {x : EvalM α} {after : α → Prop}
    (h : before → x.InLanguage fun _ => True) :
    (between alarm (fun _ => before) x fun a _ => after a).InLanguage after := by
  apply (expect_inLanguage alarm before).bind
  intro _ held
  apply (h held).bind
  intro a _
  apply (expect_inLanguage alarm (after a)).bind
  intro _ given
  exact .pure given

end EvalM

/-- The machine, watched for numbers out of range. -/
noncomputable def Machine.watchRange (alarm : World) (m : Machine) : Machine where
  levels := m.levels
  eval e env ctx :=
    between alarm (fun _ => e.Writable) (m.eval e env ctx) fun answer _ => answer.Fits
  call caller fn args :=
    between alarm (fun _ => CallFits fn args) (m.call caller fn args) fun v _ => v.Writable

/-- The evaluator with so many levels, watched at each of them for numbers out of range. -/
noncomputable def rangeWatched (alarm : World) (bounces : Nat) : Nat → Machine
  | 0 => Machine.exhausted
  | depth + 1 => ((rangeWatched alarm bounces depth).next bounces).watchRange alarm

theorem levels_rangeWatched (alarm : World) (bounces depth : Nat) :
    (rangeWatched alarm bounces depth).levels = depth := by
  induction depth with
  | zero => rfl
  | succ depth ih => exact congrArg Nat.succ ih

/-- The alarm aside, watching changes nothing. -/
theorem rangeWatched_related (alarm : World) (bounces depth : Nat) :
    Machine.Related (alarmOrder alarm) (rangeWatched alarm bounces depth)
      (machine bounces depth) :=
  Machine.related_of_levels rfl (levels_rangeWatched alarm bounces)
    (fun _ _ _ _ _ related => EvalM.between_rel related _ _)
    (fun _ _ _ _ _ related => EvalM.between_rel related _ _) depth

/-- What makes the rules leave the language raises the alarm. -/
theorem rangeWatched_contained (alarm : World) (bounces depth : Nat) :
    (rangeWatched alarm bounces depth).Contained := by
  induction depth with
  | zero => exact ⟨fun _ _ _ => .fail rfl, fun _ _ _ => .fail rfl⟩
  | succ depth ih =>
    constructor
    · intro e env ctx
      exact EvalM.between_inLanguage fun writable => ih.evalExpr writable env ctx
    · intro caller fn args
      exact EvalM.between_inLanguage fun fits => ih.runChain caller bounces fits

theorem Machine.Contained.settle {m : Machine} (h : m.Contained) (env : FrameId)
    (answer : Answer) : (m.settle env answer).InLanguage fun _ => True := by
  cases answer with
  | value v => exact .pure trivial
  | pending fn args => exact (h.call env fn args).imp fun _ _ => trivial

namespace Session

variable {m : Machine} {root : FrameId}

theorem runDatum_inLanguage (h : m.Contained) (root : FrameId) (d : Datum) :
    (runDatum m root d).InLanguage fun _ => True := by
  apply (EvalM.InLanguage.modifyGet _).bind
  intro e _
  apply (h.eval e root Context.topLevel).bind
  intro answer _
  exact h.settle root answer

theorem runAll_inLanguage (h : m.Contained) (root : FrameId) (ds : List Datum) :
    (runAll m root ds).InLanguage fun _ => True := by
  induction ds with
  | nil => exact .fail rfl
  | cons d ds ih =>
    cases ds with
    | nil => exact runDatum_inLanguage h root d
    | cons next ds => exact (runDatum_inLanguage h root d).bind fun _ _ => ih

theorem runProgram_inLanguage (h : m.Contained) (root : FrameId) (ds : List Datum) :
    (runProgram m root ds).InLanguage fun _ => True := by
  unfold runProgram
  split
  · exact .pure trivial
  · exact runAll_inLanguage h root ds

end Session

/-- Watched for numbers out of range, the run raises the alarm. -/
def Limits.Overshoots {α : Type} (limits : Limits) (run : Machine → EvalM α) (w : World) : Prop :=
  ∀ alarm, (run (rangeWatched alarm limits.bounces limits.depth)).Alarmed alarm w

/-- A run that does not overshoot does what the watched run does. -/
theorem Limits.inLanguage_or_overshoots {α : Type} (limits : Limits) {run : Machine → EvalM α}
    (related : ∀ alarm, (alarmOrder alarm).Rel
      (run (rangeWatched alarm limits.bounces limits.depth)) (run limits.machine))
    (contained : ∀ alarm, (run (rangeWatched alarm limits.bounces limits.depth)).InLanguage
      fun _ => True) {w w' : World} {err : Error}
    (fails : (run limits.machine).runFrom w = (.error (.error err), w')) :
    err.kind.inLanguage = true ∨ limits.Overshoots run w := by
  by_cases overshoots : limits.Overshoots run w
  · exact .inr overshoots
  · obtain ⟨alarm, quiet⟩ := not_forall.1 overshoots
    have same := (related alarm w).resolve_left quiet
    exact .inl ((contained alarm w _ _ (same.trans fails)).1 err rfl)

/-- A word of the source is an integer with too many digits to be read. -/
def Datum.Overlong (source : String) : Prop :=
  ∃ t ∈ (TokenQueue.ofSource source).tokens, t.kind = .word ∧ ∃ negative digits,
    Numeral.ofChars? t.text.toList = some (.int negative digits) ∧
      Error.digitLimit < digits.length

theorem Datum.exists_numeral_of_ofWord_error {word : String} {e : Error}
    (h : Datum.ofWord word = .error e) : ∃ negative digits,
      Numeral.ofChars? word.toList = some (.int negative digits) ∧
        Error.digitLimit < digits.length := by
  obtain ⟨numeral, taken, fails⟩ := ofWord_eq_error_iff.1 h
  obtain ⟨negative, digits, rfl, long, -⟩ := Numeral.value_eq_error_iff.1 fails
  exact ⟨negative, digits, taken, long⟩

/-- Reading fails in the language unless the source has an integer that is too long. -/
theorem Datum.readAll_inLanguage_or_overlong {source : String} {e : Error}
    (h : Datum.readAll source = .error e) : e.kind.inLanguage = true ∨ Overlong source := by
  rcases TokenQueue.readAll_error_cases h with malformed | ⟨t, member, isWord, refused⟩ | failed
  · rw [malformed]
    exact .inl rfl
  · exact .inr ⟨t, member, isWord, exists_numeral_of_ofWord_error refused⟩
  · obtain ⟨c, -, rfl⟩ := Option.map_eq_some_iff.1 failed
    exact .inl rfl

section Arithmetic

variable {m : Machine} {caller : FrameId} {w : World}

theorem EvalM.ofExcept_leaves_iff {α : Type} {x : Except Error α} :
    (∃ err w', (EvalM.ofExcept x).runFrom w = (.error (.error err), w') ∧
      err.kind.inLanguage = false) ↔ ¬ FailsInLanguage x := by
  cases x with
  | ok a => simp [EvalM.ofExcept, EvalM.runFrom_pure]
  | error e =>
    simp only [failsInLanguage_error, Bool.not_eq_true]
    constructor
    · rintro ⟨err, w', run, outside⟩
      cases run
      exact outside
    · exact fun outside => ⟨e, w, rfl, outside⟩

/-- Arithmetic on numbers leaves the language if and only if the numbers do not fit. -/
theorem Machine.arithmetic_leaves_iff {op : Builtin}
    (arithmetic : op ∈ [Builtin.add, .sub, .mul, .div, .mod]) (ns : List Number) :
    (∃ err w', (m.runBuiltin caller op (ns.map Value.number)).runFrom w =
      (.error (.error err), w') ∧ err.kind.inLanguage = false) ↔ ¬ op.Fits ns := by
  simp only [List.mem_cons, List.not_mem_nil, or_false] at arithmetic
  rcases arithmetic with rfl | rfl | rfl | rfl | rfl
  all_goals refine EvalM.ofExcept_leaves_iff.trans (not_congr ?_)
  · exact arithmetic_failsInLanguage_iff Builtin.sum_failsInLanguage_iff m.levels ns
  · exact arithmetic_failsInLanguage_iff Builtin.difference_failsInLanguage_iff m.levels ns
  · exact arithmetic_failsInLanguage_iff Builtin.product_failsInLanguage_iff m.levels ns
  · exact arithmetic_failsInLanguage_iff Builtin.quotient_failsInLanguage_iff m.levels ns
  · exact failsInLanguage_bind_pure_iff.trans (Builtin.remainder_failsInLanguage_iff m.levels ns)

end Arithmetic

open Session in
/-- Evaluation, calls, programs and sources fail only with errors of the language as long as no
number out of range comes up, and sources with integers that are too long are refused before
anything is run. Arithmetic and writing leave the language for exactly the numbers that are out of
range. -/
theorem failures_in_language (limits : Limits) (w : World) :
    (∀ e env ctx err w', (limits.machine.eval e env ctx >>= limits.machine.settle env).runFrom w =
        (.error (.error err), w') →
      err.kind.inLanguage = true ∨
        limits.Overshoots (fun m => m.eval e env ctx >>= m.settle env) w) ∧
    (∀ caller fn args err w', (limits.machine.call caller fn args).runFrom w =
        (.error (.error err), w') →
      err.kind.inLanguage = true ∨ limits.Overshoots (fun m => m.call caller fn args) w) ∧
    (∀ root ds err w', (runAll limits.machine root ds).runFrom w = (.error (.error err), w') →
      err.kind.inLanguage = true ∨ limits.Overshoots (fun m => runAll m root ds) w) ∧
    (∀ root source err w', (runSource limits.machine root source).runFrom w =
        (.error (.error err), w') →
      err.kind.inLanguage = true ∨ (Datum.Overlong source ∧ w' = w) ∨
        limits.Overshoots (fun m => runSource m root source) w) ∧
    (∀ (m : Machine) caller (op : Builtin) ns, op ∈ [.add, .sub, .mul, .div, .mod] →
      ((∃ err w', (m.runBuiltin caller op (ns.map Value.number)).runFrom w =
        (.error (.error err), w') ∧ err.kind.inLanguage = false) ↔ ¬ op.Fits ns)) ∧
    (∀ n : Number, FailsInLanguage n.text ↔ n.Writable) := by
  have related (alarm : World) := rangeWatched_related alarm limits.bounces limits.depth
  have contained (alarm : World) := rangeWatched_contained alarm limits.bounces limits.depth
  refine ⟨fun e env ctx err w' fails => ?_, fun caller fn args err w' fails => ?_,
    fun root ds err w' fails => ?_, fun root source err w' fails => ?_,
    fun m caller op ns arithmetic => Machine.arithmetic_leaves_iff arithmetic ns,
    Number.text_failsInLanguage_iff⟩
  · refine limits.inLanguage_or_overshoots (fun alarm => ?_) (fun alarm => ?_) fails
    · refine (alarmOrder alarm).bind ((related alarm).eval e env ctx) fun answer => ?_
      cases answer with
      | value v => exact (alarmOrder alarm).refl _
      | pending fn args => exact (related alarm).call env fn args
    · apply ((contained alarm).eval e env ctx).bind
      intro answer _
      exact (contained alarm).settle env answer
  · exact limits.inLanguage_or_overshoots (fun alarm => (related alarm).call caller fn args)
      (fun alarm => ((contained alarm).call caller fn args).imp fun _ _ => trivial) fails
  · exact limits.inLanguage_or_overshoots (fun alarm => (related alarm).runAll root ds)
      (fun alarm => runAll_inLanguage (contained alarm) root ds) fails
  · cases read : Datum.readAll source with
    | error e =>
      rw [runSource_of_error read] at fails
      cases fails
      refine (Datum.readAll_inLanguage_or_overlong read).imp_right fun overlong => ?_
      exact .inl ⟨overlong, rfl⟩
    | ok ds =>
      refine (limits.inLanguage_or_overshoots
        (fun alarm => (related alarm).runSource root source) (fun alarm => ?_) fails).imp_right .inr
      rw [runSource_of_ok _ _ read]
      exact runProgram_inLanguage (contained alarm) root ds

open Session in
/-- A quotient in a new session, of a number so large that no float comes near. The failure is none
of the language, and the watch sees it, whether the quotient is asked for by an expression, a call,
a program or a source. -/
theorem failures_in_language_large_quotient :
    let machine := Limits.standard.machine
    let large : Number := .int (10 ^ 309)
    let args : List Value := [.number large, .number (.int 3)]
    let e : Value := .ofList 0 (.symbol ⟨"/"⟩ :: args)
    let d : Datum := .ofList [.symbol ⟨"/"⟩, .atom (.number large), .atom (.number (.int 3))]
    let source :=
      "(define x 99999999) (define y (* x x x x x x x)) (/ (* y y y y y y) 2)"
    let failed : Except Stop Value := .error (.error .quotientTooLarge)
    (((machine.eval e 0 Context.topLevel >>= machine.settle 0).runFrom emptySession).1 = failed ∧
      Limits.standard.Overshoots (fun m => m.eval e 0 Context.topLevel >>= m.settle 0)
        emptySession) ∧
    (((machine.call 0 (.builtin .div) args).runFrom emptySession).1 = failed ∧
      Limits.standard.Overshoots (fun m => m.call 0 (.builtin .div) args) emptySession) ∧
    (((runAll machine 0 [d]).runFrom emptySession).1 = failed ∧
      Limits.standard.Overshoots (fun m => runAll m 0 [d]) emptySession) ∧
    (((runSource machine 0 source).runFrom emptySession).1 = failed ∧
      Limits.standard.Overshoots (fun m => runSource m 0 source) emptySession) ∧
    ¬ Builtin.div.Fits [large, .int 3] := by
  intro machine large args e d source failed
  have outcome {α : Type} {x : EvalM α} {stop : Stop}
      (h : (x.runFrom emptySession).1 = .error stop) :
      x.runFrom emptySession = (.error stop, (x.runFrom emptySession).2) := Prod.ext h rfl
  have outside : ¬ Error.quotientTooLarge.kind.inLanguage = true := nofun
  have evaluated : ((machine.eval e 0 Context.topLevel >>= machine.settle 0).runFrom
      emptySession).1 = failed := by decide +kernel
  have called : ((machine.call 0 (.builtin .div) args).runFrom emptySession).1 = failed := by
    decide +kernel
  have applied : ((machine.runBuiltin 0 .div args).runFrom emptySession).1 = failed := by
    decide +kernel
  have run : ((runAll machine 0 [d]).runFrom emptySession).1 = failed := by decide +kernel
  have sourceRun : ((runSource machine 0 source).runFrom emptySession).1 = failed ∧
      ((runSource machine 0 source).runFrom emptySession).2 ≠ emptySession := by decide +kernel
  obtain ⟨ofEval, ofCall, ofRunAll, ofRunSource, ofArithmetic, -⟩ :=
    failures_in_language Limits.standard emptySession
  refine ⟨⟨evaluated, ?_⟩, ⟨called, ?_⟩, ⟨run, ?_⟩, ⟨sourceRun.1, ?_⟩, ?_⟩
  · exact (ofEval e 0 Context.topLevel _ _ (outcome evaluated)).resolve_left outside
  · exact (ofCall 0 (.builtin .div) args _ _ (outcome called)).resolve_left outside
  · exact (ofRunAll 0 [d] _ _ (outcome run)).resolve_left outside
  · have seen := (ofRunSource 0 source _ _ (outcome sourceRun.1)).resolve_left outside
    -- a source that is refused leaves the state as it was
    exact seen.resolve_left fun refused => sourceRun.2 refused.2
  · exact (ofArithmetic machine 0 .div [large, .int 3] (by simp)).1 ⟨_, _, outcome applied, rfl⟩

open Session in
/-- The state of a new session can be reached, and a source that is run there may fail outside the
language. -/
theorem source_leaves_language :
    let source :=
      "(define x 99999999) (define y (* x x x x x x x)) (/ (* y y y y y y) 2)"
    Reachable emptySession ∧
      ((runSource Limits.standard.machine 0 source).runFrom emptySession).1 =
        .error (.error .quotientTooLarge) ∧
      Error.quotientTooLarge.kind.inLanguage = false := by
  intro source
  have started := Reachable.start Limits.standard .none
  rw [start, EvalM.runFrom_bind_ok runFrom_newRoot] at started
  exact ⟨started, by decide +kernel, rfl⟩

end SmallLisp
