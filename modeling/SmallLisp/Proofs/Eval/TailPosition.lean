import Mathlib.Logic.Relation
import SmallLisp.Proofs.Eval.TailChain

/-!
# Calls in tail position

The last form of a body may be a form that hands its place on to one of the forms in it: to the
branch that it chooses, or to its own last form. Evaluating a row of forms comes step by step to the
form in the last place (`TailStep`), and the row gives what that form gives. Main statements: one
step keeps what a row gives (`gives_of_tailStep`), and so do many (`gives_of_tailSteps`). So a call
that is come to in a body is handed back with the values of its operator and operands, and is not
made (`tail_calls`).
-/

namespace SmallLisp

/-- Within some bounds, the run ends like this. -/
def Attains {α : Type} (run : Machine → EvalM α) (w : World) (result : Except Error α)
    (w' : World) : Prop :=
  ∃ limits : Limits, (run limits.machine).Ends w result w'

namespace Attains

open Machine (Within)

variable {α β : Type} {w w' w'' : World}

/-- The run does within wider bounds what it does within narrower ones. -/
def Grows (run : Machine → EvalM α) : Prop := ∀ ⦃m m' : Machine⦄, Within m m' → run m ≤ run m'

theorem bind {run : Machine → EvalM α} {a : α} {result : Except Error β}
    (first : Attains run w (.ok a) w') (grows : Grows run) (next : α → Machine → EvalM β)
    (grows' : Grows (next a)) (rest : Attains (next a) w' result w'') :
    Attains (fun m => run m >>= fun a => next a m) w result w'' := by
  obtain ⟨limits, ends⟩ := first
  obtain ⟨limits', ends'⟩ := rest
  obtain ⟨both, left, right⟩ := limits.exists_wider limits'
  exact ⟨both, (ends.of_le (grows left)).bind_ok (ends'.of_le (grows' right))⟩

/-- A run ends in one way only, whatever the bounds within which it ends. -/
theorem unique {run : Machine → EvalM α} (grows : Grows run) {result other : Except Error α}
    (h : Attains run w result w') (h' : Attains run w other w'') :
    result = other ∧ w' = w'' := by
  obtain ⟨limits, ends⟩ := h
  obtain ⟨limits', ends'⟩ := h'
  obtain ⟨both, left, right⟩ := limits.exists_wider limits'
  exact (ends.of_le (grows left)).unique (ends'.of_le (grows right))

/-- A sequence ends with the error of its first part, or with the end of its second. -/
theorem of_bind {run : Machine → EvalM α} {next : α → Machine → EvalM β}
    {result : Except Error β} (h : Attains (fun m => run m >>= fun a => next a m) w result w'') :
    (∃ e, Attains run w (.error e) w'' ∧ result = .error e) ∨
      ∃ a w', Attains run w (.ok a) w' ∧ Attains (next a) w' result w'' := by
  obtain ⟨limits, ends⟩ := h
  rcases ends.of_bind with ⟨e, failed, rfl⟩ | ⟨a, w', first, rest⟩
  · exact .inl ⟨e, ⟨limits, failed⟩, rfl⟩
  · exact .inr ⟨a, w', ⟨limits, first⟩, limits, rest⟩

/-- Once the first part has ended, a sequence ends as its second part does. -/
theorem bind_iff {run : Machine → EvalM α} {a : α} {result : Except Error β}
    (first : Attains run w (.ok a) w') (grows : Grows run) (next : α → Machine → EvalM β)
    (grows' : Grows (next a)) :
    Attains (fun m => run m >>= fun a => next a m) w result w'' ↔
      Attains (next a) w' result w'' := by
  refine ⟨fun h => ?_, first.bind grows next grows'⟩
  rcases of_bind h with ⟨e, failed, -⟩ | ⟨b, w₁, ended, rest⟩
  · obtain ⟨same, -⟩ := unique grows first failed
    cases same
  · obtain ⟨same, rfl⟩ := unique grows first ended
    cases same
    exact rest

/-- Whatever the bounds, the run is stopped by them or ends like this. -/
theorem exhausts_or_ends {run : Machine → EvalM α} (grows : Grows run) {result : Except Error α}
    (h : Attains run w result w') (limits : Limits) :
    (run limits.machine).Exhausts w ∨ (run limits.machine).Ends w result w' := by
  obtain ⟨limits', ends⟩ := h
  obtain ⟨both, left, right⟩ := limits.exists_wider limits'
  have ends := ends.of_le (grows right)
  refine (grows left w).imp_right fun same => ⟨?_, ends.2⟩
  rw [same]
  exact ends.1

theorem grows_settle (env : FrameId) (answer : Answer) : Grows fun m => m.settle env answer := by
  intro m m' h
  cases answer with
  | value v => exact le_refl _
  | pending fn args => exact h.call env fn args

theorem grows_value (e : Value) (env : FrameId) (ctx : Context) :
    Grows fun m => m.value e env ctx := fun _ _ h => h.related.value e env ctx

theorem grows_values (es : List Value) (env : FrameId) (ctx : Context) :
    Grows fun m => m.values es env ctx := fun _ _ h => (h.related.corresponds ctx).values es env

theorem grows_eval (e : Value) (env : FrameId) (ctx : Context) :
    Grows fun m => m.eval e env ctx := fun _ _ h => h.eval e env ctx

theorem grows_evalBlock (env : FrameId) (ctx : Context) (forms : List Value) :
    Grows fun m => m.evalBlock env ctx forms := by
  intro m m' h
  have related := (h.related.corresponds ctx).evalBlock env forms
  rwa [bind_pure, bind_pure] at related

theorem grows_evalCond (env : FrameId) (ctx : Context) (clauses : List Value) :
    Grows fun m => m.evalCond env ctx clauses := by
  intro m m' h
  have related := (h.related.corresponds ctx).evalCond env clauses
  rwa [bind_pure, bind_pure] at related

theorem grows_declareAll (frame : FrameId) (ctx : Context) (declarations : List Value) :
    Grows fun m => m.declareAll frame ctx declarations :=
  fun _ _ h => (h.related.corresponds ctx).declareAll frame declarations

theorem grows_callOnce (caller : FrameId) (fn : Value) (args : List Value) :
    Grows fun m => m.callOnce caller fn args := fun _ _ h => h.callOnce caller fn args

end Attains

open Attains (Grows)
open EvalM (boundOrder)

/-- Forms that are to be evaluated in order, in a frame and from a state. The last of them stands in
the place of all. -/
structure Row where
  forms : List Value
  frame : FrameId
  state : World

namespace Row

/-- What evaluating the forms ends with. -/
def Gives (ctx : Context) (p : Row) (result : Except Error Answer) (w : World) : Prop :=
  Attains (fun m => m.evalBlock p.frame ctx p.forms) p.state result w

end Row

/-- The tests of the clauses of a `cond` come to the clause with this expression. -/
inductive Chooses (ctx : Context) (env : FrameId) : World → List Value → Value → World → Prop
  | this {w w' : World} {i j : Nat} {test e more v : Value} {clauses : List Value} :
    Attains (·.value test env ctx) w (.ok v) w' → v.isTrue = true →
    Chooses ctx env w (.cons i test (.cons j e more) :: clauses) e w'
  | later {w w' w'' : World} {i j : Nat} {test skipped more v e : Value} {clauses : List Value} :
    Attains (·.value test env ctx) w (.ok v) w' → v.isTrue = false →
    Chooses ctx env w' clauses e w'' →
    Chooses ctx env w (.cons i test (.cons j skipped more) :: clauses) e w''

/-- One step of a row of forms: the first form is evaluated if it is not the last, and a last form
that hands its place on is replaced by the forms to which it hands it. -/
inductive TailStep (ctx : Context) : Row → Row → Prop
  | form {form next : Value} {rest : List Value} {env : FrameId} {w w' : World} {v : Value} :
    Attains (·.value form env ctx) w (.ok v) w' →
    TailStep ctx ⟨form :: next :: rest, env, w⟩ ⟨next :: rest, env, w'⟩
  | begin {id : Nat} {operator operands : Value} {env : FrameId} {w : World} :
    Machine.formOf? operator = some .begin →
    TailStep ctx ⟨[.cons id operator operands], env, w⟩ ⟨operands.toList, env, w⟩
  | letBlock {id i : Nat} {operator declarations body : Value} {env : FrameId} {w w' : World} :
    Machine.formOf? operator = some .letBlock → declarations.isList = true →
    Attains (·.declareAll w.heap.size ctx declarations.toList)
      { w with heap := w.heap.extend (some env) } (.ok ()) w' →
    TailStep ctx ⟨[.cons id operator (.cons i declarations body)], env, w⟩
      ⟨body.toList, w.heap.size, w'⟩
  | thenBranch {id i j : Nat} {operator test e others v : Value} {env : FrameId} {w w' : World} :
    Machine.formOf? operator = some .ifElse →
    Attains (·.value test env ctx) w (.ok v) w' → v.isTrue = true →
    TailStep ctx ⟨[.cons id operator (.cons i test (.cons j e others))], env, w⟩ ⟨[e], env, w'⟩
  | elseBranch {id i j k : Nat} {operator test skipped e more v : Value} {env : FrameId}
    {w w' : World} :
    Machine.formOf? operator = some .ifElse →
    Attains (·.value test env ctx) w (.ok v) w' → v.isTrue = false →
    TailStep ctx ⟨[.cons id operator (.cons i test (.cons j skipped (.cons k e more)))], env, w⟩
      ⟨[e], env, w'⟩
  | cond {id : Nat} {operator clauses e : Value} {env : FrameId} {w w' : World} :
    Machine.formOf? operator = some .cond → Chooses ctx env w clauses.toList e w' →
    TailStep ctx ⟨[.cons id operator clauses], env, w⟩ ⟨[e], env, w'⟩

namespace Row

variable {ctx : Context} {w w' w'' : World} {env : FrameId} {result : Except Error Answer}

/-- A form gives what the rule for it gives, one level further down. -/
theorem gives_of_rule {e : Value} {rule : Machine → EvalM Answer}
    (ruled : ∀ m : Machine, m.evalExpr e env ctx = rule m) (h : Attains rule w result w') :
    Gives ctx ⟨[e], env, w⟩ result w' := by
  obtain ⟨limits, ends⟩ := h
  rw [← ruled] at ends
  exact ⟨⟨limits.depth + 1, limits.bounces⟩, ends⟩

theorem gives_of_evalForm {id : Nat} {operator operands : Value} {form : SpecialForm}
    (marked : Machine.formOf? operator = some form)
    (h : Attains (fun m => m.evalForm form operands env ctx) w result w') :
    Gives ctx ⟨[.cons id operator operands], env, w⟩ result w' :=
  gives_of_rule (fun m => by rw [Machine.evalExpr, marked]) h

/-- A test leads to what its value chooses. -/
theorem attains_test_iff {test v : Value} {yes no chosen : Machine → EvalM Answer}
    (tested : Attains (·.value test env ctx) w (.ok v) w')
    (chooses : ∀ m, (if v.isTrue then yes m else no m) = chosen m) (grows : Grows chosen) :
    Attains (fun m => m.value test env ctx >>= fun v => if v.isTrue then yes m else no m)
      w result w'' ↔ Attains chosen w' result w'' := by
  obtain rfl : (fun m => if v.isTrue then yes m else no m) = chosen := funext chooses
  exact tested.bind_iff (Attains.grows_value test env ctx)
    (fun v m => if v.isTrue then yes m else no m) grows

/-- A `cond` gives what the expression gives that its tests come to. -/
theorem attains_evalCond_iff {clauses : List Value} {e : Value}
    (chosen : Chooses ctx env w clauses e w') :
    Attains (fun m => m.evalCond env ctx clauses) w result w'' ↔
      Attains (fun m => m.eval e env ctx) w' result w'' := by
  induction chosen with
  | @this w w' i j test e more v clauses tested holds =>
    exact attains_test_iff tested (fun _ => if_pos holds) (Attains.grows_eval e env ctx)
  | @later w w₁ w' i j test skipped more v e clauses tested fails _ ih =>
    refine (attains_test_iff tested (fun _ => if_neg (Bool.eq_false_iff.1 fails)) ?_).trans ih
    exact Attains.grows_evalCond env ctx clauses

/-- The rule for `let`, with declarations that are listed: they are made in the new frame, and the
body starts where they leave off. -/
theorem evalLet_cons (m : Machine) {i : Nat} {declarations body : Value}
    (proper : declarations.isList = true) :
    m.evalLet (.cons i declarations body) env ctx =
      EvalM.newFrame (some env) >>= fun frame => m.declareAll frame ctx declarations.toList >>=
        fun _ => m.evalBlock frame ctx body.toList := by
  unfold Machine.evalLet
  show ite (declarations.isList = true) _ _ = _
  rw [if_pos proper]
  rfl

/-- The rule for `let`, from the state in which it is applied: the new frame is the next. -/
theorem runFrom_evalLet (m : Machine) {i : Nat} {declarations body : Value}
    (proper : declarations.isList = true) :
    (m.evalLet (.cons i declarations body) env ctx).runFrom w =
      (m.declareAll w.heap.size ctx declarations.toList >>= fun _ =>
        m.evalBlock w.heap.size ctx body.toList).runFrom
      { w with heap := w.heap.extend (some env) } := by
  rw [evalLet_cons m proper]
  exact EvalM.runFrom_bind_ok (EvalM.run_newFrame w (some env)) _

/-- One step keeps what a row gives: the forms that stand in the place of others are evaluated in
the place of these. -/
theorem gives_of_tailStep {p q : Row} (step : TailStep ctx p q) (h : Gives ctx q result w) :
    Gives ctx p result w := by
  cases step with
  | @form form next rest env w₀ w₁ v first =>
    exact first.bind (Attains.grows_value form env ctx) _
      (Attains.grows_evalBlock env ctx (next :: rest)) h
  | begin marked => exact gives_of_evalForm marked h
  | @letBlock id i operator declarations body env w₀ w₁ marked proper declared =>
    refine gives_of_evalForm marked ?_
    -- the declarations run in the new frame, and the body starts where they leave off
    have inside := declared.bind (Attains.grows_declareAll _ ctx declarations.toList)
      (fun _ m => m.evalBlock w₀.heap.size ctx body.toList)
      (Attains.grows_evalBlock _ ctx body.toList) h
    obtain ⟨limits, run, bound⟩ := inside
    exact ⟨limits, (runFrom_evalLet limits.machine proper).trans run, bound⟩
  | @thenBranch id i j operator test e others v env w₀ w₁ marked tested holds =>
    refine gives_of_evalForm marked ?_
    exact (attains_test_iff tested (fun _ => if_pos holds) (Attains.grows_eval e env ctx)).2 h
  | @elseBranch id i j k operator test skipped e more v env w₀ w₁ marked tested fails =>
    refine gives_of_evalForm marked ?_
    exact (attains_test_iff tested (fun _ => if_neg (Bool.eq_false_iff.1 fails))
      (Attains.grows_eval e env ctx)).2 h
  | cond marked chosen => exact gives_of_evalForm marked ((attains_evalCond_iff chosen).2 h)

/-- Any number of steps keeps what a row gives. -/
theorem gives_of_tailSteps {p q : Row} (steps : Relation.ReflTransGen (TailStep ctx) p q)
    (h : Gives ctx q result w) : Gives ctx p result w := by
  induction steps using Relation.ReflTransGen.head_induction_on with
  | refl => exact h
  | head step _ ih => exact gives_of_tailStep step ih

/-- A call in a place that hands calls back gives the call of the values of its operator and
operands. -/
theorem gives_pending (handsBack : ctx.handsBack = true) {id : Nat} {operator operands fn : Value}
    {args : List Value} (unmarked : Machine.formOf? operator = none)
    (operatorValue : Attains (·.value operator env ctx) w (.ok fn) w')
    (operandValues : Attains (·.values operands.toList env ctx) w' (.ok args) w'') :
    Gives ctx ⟨[.cons id operator operands], env, w⟩ (.ok (.pending fn args)) w'' := by
  have given : Attains (fun _ => pure (Answer.pending fn args)) w'' (.ok (.pending fn args)) w'' :=
    ⟨⟨0, 0⟩, rfl, nofun⟩
  have rule (m : Machine) : m.evalExpr (.cons id operator operands) env ctx =
      m.value operator env ctx >>= fun fn => m.values operands.toList env ctx >>= fun args =>
        pure (.pending fn args) := by
    simp only [Machine.evalExpr, unmarked, Machine.evalCall,
      Machine.finishCall_of_handsBack handsBack]
  have grows (fn : Value) : Grows fun m => m.values operands.toList env ctx >>= fun args =>
      pure (Answer.pending fn args) :=
    fun _ _ within => boundOrder.bind (Attains.grows_values operands.toList env ctx within)
      fun _ => boundOrder.refl _
  have handed := operandValues.bind (Attains.grows_values operands.toList env ctx)
    (fun args _ => pure (Answer.pending fn args)) (fun _ _ _ => boundOrder.refl _) given
  exact gives_of_rule rule (operatorValue.bind (Attains.grows_value operator env ctx)
    (fun fn m => m.values operands.toList env ctx >>= fun args => pure (Answer.pending fn args))
    (grows fn) handed)

end Row

/-- A body gives as a call of its function what it gives as a row, in the frame of the call. -/
theorem attains_callOnce_of_gives {header : ClosureHeader} {body : Value} {args : List Value}
    {caller frame : FrameId} {w w₀ w' : World} {result : Except Error Answer}
    (opened : (Machine.openFrame header args).runFrom w = (.ok frame, w₀))
    (h : Row.Gives Context.functionBody ⟨body.toList, frame, w₀⟩ result w') :
    Attains (·.callOnce caller (.closure header body) args) w result w' := by
  obtain ⟨limits, run, bound⟩ := h
  exact ⟨limits, (EvalM.runFrom_bind_ok opened _).trans run, bound⟩

/-- Tail calls run in bounded stack, whatever their number. A call ends within one activation more
than a depth just when it is a chain of calls that each end within that depth, from the state in
which it is come to, and with the result of the last of them: the length of the chain makes no
difference. And a call that the evaluation of a body comes to in its last place, through any nesting
of the forms that hand their place on, is handed back with the values of its operator and operands
and in the state in which these leave off. It is not made, whatever the bounds. -/
theorem tail_calls :
    (∀ (spare depth : Nat) (caller : FrameId) (w : World) (fn : Value) (args : List Value)
      (result : Except Error Value) (w' : World),
      (∃ bounces,
        ((activations spare bounces (depth + 1)).call caller fn args).Ends w result w') ↔
      Machine.ChainWithin spare depth caller w fn args result w') ∧
    ∀ (caller : FrameId) (header : ClosureHeader) (body : Value) (args : List Value)
      (frame env : FrameId) (id : Nat) (operator operands fn : Value) (values : List Value)
      (w w₀ w₁ w₂ w₃ : World),
      (Machine.openFrame header args).runFrom w = (.ok frame, w₀) →
      Relation.ReflTransGen (TailStep Context.functionBody) ⟨body.toList, frame, w₀⟩
        ⟨[.cons id operator operands], env, w₁⟩ →
      Machine.formOf? operator = none →
      Attains (·.value operator env Context.functionBody) w₁ (.ok fn) w₂ →
      Attains (·.values operands.toList env Context.functionBody) w₂ (.ok values) w₃ →
      Attains (·.callOnce caller (.closure header body) args) w (.ok (.pending fn values)) w₃ ∧
        ∀ limits : Limits,
          (limits.machine.callOnce caller (.closure header body) args).Exhausts w ∨
          (limits.machine.callOnce caller (.closure header body) args).Ends w
            (.ok (.pending fn values)) w₃ := by
  refine ⟨fun _ _ _ _ _ _ _ _ => Machine.call_ends_iff_chain, ?_⟩
  intro caller header body args frame env id operator operands fn values w w₀ w₁ w₂ w₃
    opened steps unmarked operatorValue operandValues
  have last : Row.Gives Context.functionBody ⟨[.cons id operator operands], env, w₁⟩
      (.ok (.pending fn values)) w₃ :=
    Row.gives_pending rfl unmarked operatorValue operandValues
  have handedBack : Attains (·.callOnce caller (.closure header body) args) w
      (.ok (.pending fn values)) w₃ :=
    attains_callOnce_of_gives opened (Row.gives_of_tailSteps steps last)
  have grows := Attains.grows_callOnce caller (.closure header body) args
  exact ⟨handedBack, handedBack.exhausts_or_ends grows⟩

/-- The body `(let ((y x)) (begin x (cond (#f y) (#t (if y (x y) x)))))`, called with an operation
as `x`: the call of the operation is handed back. Made in the chain that the first call starts, it
takes no more activations than the body. -/
theorem tail_calls_nested :
    let x : Symbol := ⟨"x"⟩
    let y : Symbol := ⟨"y"⟩
    let call := Value.ofList 0 [.symbol x, .symbol y]
    let choice := Value.ofList 2 [.symbol ⟨"if"⟩, .symbol y, call, .symbol x]
    let tests := Value.ofList 6 [.symbol ⟨"cond"⟩, .ofList 9 [.bool false, .symbol y],
      .ofList 11 [.bool true, choice]]
    let block := Value.ofList 13 [.symbol ⟨"begin"⟩, .symbol x, tests]
    let body := Value.ofList 16 [.ofList 17 [.symbol ⟨"let"⟩,
      .ofList 20 [.ofList 21 [.symbol y, .symbol x]], block]]
    let header : ClosureHeader := ⟨23, [x], 0, none⟩
    let op := Value.builtin .not
    let w : World := ⟨⟨#[⟨none, []⟩]⟩, 24, #[]⟩
    let w' : World := ⟨⟨#[⟨none, []⟩, ⟨some 0, [(x, op)]⟩, ⟨some 1, [(y, op)]⟩]⟩, 24, #[]⟩
    Attains (·.callOnce 0 (.closure header body) [op]) w (.ok (.pending op [op])) w' ∧
      Machine.ChainWithin 0 6 0 w (.closure header body) [op] (.ok (.bool false)) w' ∧
      ∃ bounces, ((activations 0 bounces (6 + 1)).call 0 (.closure header body) [op]).Ends w
        (.ok (.bool false)) w' := by
  intro x y call choice tests block body header op w w'
  let w₀ : World := ⟨⟨#[⟨none, []⟩, ⟨some 0, [(x, op)]⟩]⟩, 24, #[]⟩
  have entered : TailStep Context.functionBody ⟨body.toList, 1, w₀⟩ ⟨[block], 2, w'⟩ :=
    .letBlock rfl rfl ⟨⟨4, 4⟩, rfl, nofun⟩
  have begun : TailStep Context.functionBody ⟨[block], 2, w'⟩ ⟨[.symbol x, tests], 2, w'⟩ :=
    .begin rfl
  have passed : TailStep Context.functionBody ⟨[.symbol x, tests], 2, w'⟩ ⟨[tests], 2, w'⟩ :=
    .form (v := op) ⟨⟨4, 4⟩, rfl, nofun⟩
  have chosen : TailStep Context.functionBody ⟨[tests], 2, w'⟩ ⟨[choice], 2, w'⟩ :=
    .cond rfl (.later (v := .bool false) ⟨⟨4, 4⟩, rfl, nofun⟩ rfl
      (.this (v := .bool true) ⟨⟨4, 4⟩, rfl, nofun⟩ rfl))
  have reached : TailStep Context.functionBody ⟨[choice], 2, w'⟩ ⟨[call], 2, w'⟩ :=
    .thenBranch (v := op) rfl ⟨⟨4, 4⟩, rfl, nofun⟩ rfl
  have steps : Relation.ReflTransGen (TailStep Context.functionBody)
      ⟨body.toList, 1, w₀⟩ ⟨[call], 2, w'⟩ :=
    .tail (.tail (.tail (.tail (.single entered) begun) passed) chosen) reached
  have handed := (tail_calls.2 0 header body [op] 1 2 1 (.symbol x) (.ofList 0 [.symbol y]) op [op]
    w w₀ w' w' w' rfl steps rfl ⟨⟨4, 4⟩, rfl, nofun⟩ ⟨⟨4, 4⟩, rfl, nofun⟩).1
  have first : Machine.OnceWithin 0 6 0 w (.closure header body) [op] (.ok (.pending op [op])) w' :=
    ⟨1, by decide +kernel, nofun⟩
  have second : Machine.OnceWithin 0 6 0 w' op [op] (.ok (.value (.bool false))) w' :=
    ⟨1, rfl, nofun⟩
  have chain : Machine.ChainWithin 0 6 0 w (.closure header body) [op] (.ok (.bool false)) w' :=
    .bounce first (.last second)
  exact ⟨handed, chain, (tail_calls.1 0 6 0 w (.closure header body) [op] _ w').2 chain⟩

end SmallLisp
