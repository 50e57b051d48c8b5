import SmallLisp.Proofs.Eval.TailCalls

/-!
# The parts of a call in order

Operator and operands are evaluated from left to right, each from the state that the one before it
has left, and only then is the call made or handed back. Main statements: the first part that fails
stops them all (`runFrom_values_of_fails`), if none fails they have their values together
(`runFrom_values`), and so a call ends with its first failure or with one application
(`first_failure_decides`).
-/

namespace SmallLisp

namespace Machine

variable {m : Machine} {env : FrameId} {ctx : Context} {w w₁ w' : World}

/-- The expressions have these values when they are evaluated one after the other, from the first
state on, and leave the second. -/
inductive InOrder (m : Machine) (env : FrameId) (ctx : Context) :
    World → List Value → List Value → World → Prop
  | nil (w : World) : InOrder m env ctx w [] [] w
  | cons {w w₁ w' : World} {e v : Value} {es vs : List Value} :
    (m.eval e env ctx.inner).runFrom w = (.ok (.value v), w₁) →
    InOrder m env ctx w₁ es vs w' → InOrder m env ctx w (e :: es) (v :: vs) w'

/-- The machine that makes calls in another way. The expressions inside a call are evaluated as
before, and so are the calls in them. -/
def calling (m : Machine) (call : FrameId → Value → List Value → EvalM Value) : Machine :=
  { m with call }

theorem InOrder.calling {es vs : List Value} (h : m.InOrder env ctx w es vs w')
    (call : FrameId → Value → List Value → EvalM Value) :
    (m.calling call).InOrder env ctx w es vs w' := by
  induction h with
  | nil w => exact .nil w
  | cons first _ ih => exact .cons first ih

theorem runFrom_value {e v : Value}
    (h : (m.eval e env ctx.inner).runFrom w = (.ok (.value v), w')) :
    (m.value e env ctx).runFrom w = (.ok v, w') := EvalM.runFrom_bind_ok h _

theorem values_cons (m : Machine) (e : Value) (es : List Value) :
    m.values (e :: es) env ctx =
      m.value e env ctx >>= fun v => m.values es env ctx >>= fun vs => pure (v :: vs) :=
  List.mapM_cons

/-- Expressions that have values one after the other have them together. -/
theorem runFrom_values {es vs : List Value} (h : m.InOrder env ctx w es vs w') :
    (m.values es env ctx).runFrom w = (.ok vs, w') := by
  induction h with
  | nil w => rfl
  | cons first _ ih =>
    rw [values_cons, EvalM.runFrom_bind_ok (runFrom_value first), EvalM.runFrom_bind_ok ih]
    rfl

/-- The first expression that stops, stops them all, whatever stands behind it. -/
theorem runFrom_values_of_fails {before vs : List Value} {e : Value} {s : Stop}
    (h : m.InOrder env ctx w before vs w₁)
    (fails : (m.eval e env ctx.inner).runFrom w₁ = (.error s, w')) (after : List Value) :
    (m.values (before ++ e :: after) env ctx).runFrom w = (.error s, w') := by
  induction h with
  | nil w =>
    have stopped : (m.value e env ctx).runFrom w = (.error s, w') :=
      EvalM.runFrom_bind_error fails _
    rw [List.nil_append, values_cons, EvalM.runFrom_bind_error stopped]
  | cons first _ ih =>
    rw [List.cons_append, values_cons, EvalM.runFrom_bind_ok (runFrom_value first),
      EvalM.runFrom_bind_error (ih fails)]

/-- Expressions have values one after the other, or one of them is the first that stops. -/
theorem inOrder_or_fails (limits : Limits) (env : FrameId) (ctx : Context) (w : World)
    (es : List Value) :
    (∃ vs w', limits.machine.InOrder env ctx w es vs w') ∨
      ∃ before e after vs w₁ s w', es = before ++ e :: after ∧
        limits.machine.InOrder env ctx w before vs w₁ ∧
        (limits.machine.eval e env ctx.inner).runFrom w₁ = (.error s, w') := by
  induction es generalizing w with
  | nil => exact .inl ⟨[], w, .nil w⟩
  | cons e es ih =>
    rcases run : (limits.machine.eval e env ctx.inner).runFrom w with ⟨s | answer, w₁⟩
    · exact .inr ⟨[], e, es, [], w, s, w₁, rfl, .nil w, run⟩
    · cases answer with
      | pending fn args =>
        exact absurd run (not_pending limits ctx.handsBack_inner e env w fn args w₁)
      | value v =>
        rcases ih w₁ with ⟨vs, w', others⟩ | ⟨before, e', after, vs, w₂, s, w', rfl, others, fails⟩
        · exact .inl ⟨v :: vs, w', .cons run others⟩
        · exact .inr ⟨e :: before, e', after, v :: vs, w₂, s, w', rfl, .cons run others, fails⟩

/-- A call evaluates its parts, and then it is made or handed back. -/
theorem evalExpr_call (m : Machine) (id : Nat) {operator : Value} (operands : Value)
    (unmarked : formOf? operator = none) (env : FrameId) (ctx : Context) :
    m.evalExpr (.cons id operator operands) env ctx =
      m.values (operator :: operands.toList) env ctx >>= fun vs =>
        m.finishCall env ctx (vs.headD .nil) vs.tail := by
  simp only [evalExpr, unmarked, evalCall, values_cons, bind_assoc, pure_bind]
  rfl

theorem runFrom_call_of_fails (m : Machine) (id : Nat) {operator operands e : Value}
    {before after vs : List Value} {s : Stop} (unmarked : formOf? operator = none)
    (parts : operator :: operands.toList = before ++ e :: after)
    (first : m.InOrder env ctx w before vs w₁)
    (fails : (m.eval e env ctx.inner).runFrom w₁ = (.error s, w')) :
    (m.evalExpr (.cons id operator operands) env ctx).runFrom w = (.error s, w') := by
  rw [evalExpr_call m id operands unmarked, parts]
  exact EvalM.runFrom_bind_error (runFrom_values_of_fails first fails after) _

theorem runFrom_call (m : Machine) (id : Nat) {operator operands fn : Value} {args : List Value}
    (unmarked : formOf? operator = none)
    (parts : m.InOrder env ctx w (operator :: operands.toList) (fn :: args) w') :
    (m.evalExpr (.cons id operator operands) env ctx).runFrom w =
      (m.finishCall env ctx fn args).runFrom w' := by
  rw [evalExpr_call m id operands unmarked]
  exact EvalM.runFrom_bind_ok (runFrom_values parts) _

end Machine

open Machine (formOf?)

/-- The first part of a call that fails decides how the call ends. It ends for the same reason and
in the same state, in whatever place it stands and whatever stands behind the part, and it would do
so if calls were made in any other way: the call itself is neither made nor handed back. If all
parts have values, one after the other, the call is handed back with these values and in the state
that the last of them has left, or what follows is one call of the first value with the others, from
that state. One of the two is the case. -/
theorem first_failure_decides (bounces depth id : Nat) (operator operands : Value)
    (unmarked : formOf? operator = none) (env : FrameId) (ctx : Context) (w : World) :
    let m := machine bounces depth
    let e := Value.cons id operator operands
    (∀ before part after vs w₁ s w', operator :: operands.toList = before ++ part :: after →
      m.InOrder env ctx w before vs w₁ → (m.eval part env ctx.inner).runFrom w₁ = (.error s, w') →
      ((machine bounces (depth + 1)).eval e env ctx).runFrom w = (.error s, w') ∧
        ∀ call, ((m.calling call).evalExpr e env ctx).runFrom w = (.error s, w')) ∧
    (∀ fn args w', m.InOrder env ctx w (operator :: operands.toList) (fn :: args) w' →
      (ctx.handsBack = true →
        ((machine bounces (depth + 1)).eval e env ctx).runFrom w = (.ok (.pending fn args), w') ∧
          ∀ call, ((m.calling call).evalExpr e env ctx).runFrom w = (.ok (.pending fn args), w')) ∧
      (ctx.handsBack = false →
        ((machine bounces (depth + 1)).eval e env ctx).runFrom w =
          (do return Answer.value (← m.call env fn args)).runFrom w' ∧
          ∀ call, ((m.calling call).evalExpr e env ctx).runFrom w =
            (do return Answer.value (← call env fn args)).runFrom w')) ∧
    ((∃ fn args w', m.InOrder env ctx w (operator :: operands.toList) (fn :: args) w') ∨
      ∃ before part after vs w₁ s w', operator :: operands.toList = before ++ part :: after ∧
        m.InOrder env ctx w before vs w₁ ∧
        (m.eval part env ctx.inner).runFrom w₁ = (.error s, w')) := by
  intro m e
  refine ⟨?_, ?_, ?_⟩
  · intro before part after vs w₁ s w' parts first fails
    have stopped := m.runFrom_call_of_fails id unmarked parts first fails
    exact ⟨stopped, fun call => (m.calling call).runFrom_call_of_fails id unmarked parts
      (first.calling call) fails⟩
  · intro fn args w' parts
    have finished := m.runFrom_call id unmarked parts
    have finished' (call) := (m.calling call).runFrom_call id unmarked (parts.calling call)
    refine ⟨fun deferred => ?_, fun direct => ?_⟩
    · simp only [Machine.finishCall_of_handsBack deferred] at finished finished'
      exact ⟨finished, finished'⟩
    · simp only [Machine.finishCall_of_not_handsBack direct] at finished finished'
      exact ⟨finished, finished'⟩
  · rcases Machine.inOrder_or_fails ⟨depth, bounces⟩ env ctx w (operator :: operands.toList) with
      ⟨vs, w', parts⟩ | fails
    · cases parts with
      | cons first others => exact .inl ⟨_, _, _, .cons first others⟩
    · exact .inr fails

/-- In a body, the call `(not (print "a") x (print "b"))` in a frame without `x`: what goes wrong is
that `x` is undefined, and only `a` is printed. The call `(not (print "a"))` is handed back with the
value of its operand when `a` has been printed. -/
theorem first_failure_decides_print :
    let x : Symbol := ⟨"x"⟩
    let no := Value.builtin .not
    let print (s : String) := Value.ofList 0 [.builtin .print, .atom (.str s)]
    let parts := [print "a", .symbol x, print "b"]
    let w : World := ⟨⟨#[⟨none, []⟩]⟩, 9, #[]⟩
    let w' : World := { w with printed := #["a\n"] }
    formOf? no = none ∧
      ((machine 1 3).eval (.cons 7 no (.ofList 2 parts)) 0 Context.functionBody).runFrom w =
        (.error (.error (.undefinedSymbol "x")), w') ∧
      ((machine 1 3).eval (.cons 7 no (.ofList 2 [print "a"])) 0 Context.functionBody).runFrom w =
        (.ok (.pending no [.nil]), w') := by
  intro x no print parts w w'
  have operator : ((machine 1 2).eval no 0 Context.functionBody.inner).runFrom w =
      (.ok (.value no), w) := rfl
  have printed : ((machine 1 2).eval (print "a") 0 Context.functionBody.inner).runFrom w =
      (.ok (.value .nil), w') := rfl
  have missing : ((machine 1 2).eval (.symbol x) 0 Context.functionBody.inner).runFrom w' =
      (.error (.error (.undefinedSymbol "x")), w') := rfl
  have before : (machine 1 2).InOrder 0 Context.functionBody w [no, print "a"] [no, .nil] w' :=
    .cons operator (.cons printed (.nil w'))
  have fails := (first_failure_decides 1 2 7 no (.ofList 2 parts) rfl 0 Context.functionBody w).1
  have ends := (first_failure_decides 1 2 7 no (.ofList 2 [print "a"]) rfl 0 Context.functionBody
    w).2.1
  exact ⟨rfl, (fails _ (.symbol x) [print "b"] _ _ _ _ rfl before missing).1,
    ((ends _ _ _ before).1 rfl).1⟩

end SmallLisp
