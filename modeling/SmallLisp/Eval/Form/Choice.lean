import SmallLisp.Eval.Machine

/-!
# Forms that choose

`if` and `cond` evaluate the expression they choose in their own place. `and` and `or` take two
operands, evaluate the second only if the first does not decide, and give a truth value.
-/

namespace SmallLisp.Machine

/-- The form `(if test then else)`. Without `else` the choice falls on the empty list. -/
def evalIf (m : Machine) (operands : Value) (env : FrameId) (ctx : Context) : EvalM Answer := do
  let test ← m.first operands
  let rest ← m.others operands
  let thenForm ← m.first rest
  let elseForm ← m.others rest
  if (← m.value test env ctx).isTrue then m.eval thenForm env ctx
  else match elseForm with
    | .cons _ form _ => m.eval form env ctx
    | _ => return .value .nil

/-- The form `(cond (test then) ...)`. A clause is looked at only when no test before it held. -/
def evalCond (m : Machine) (env : FrameId) (ctx : Context) : List Value → EvalM Answer
  | [] => return .value .nil
  | .cons _ test rest :: clauses => do
    let thenForm ← m.first rest
    if (← m.value test env ctx).isTrue then m.eval thenForm env ctx
    else m.evalCond env ctx clauses
  | other :: _ => do EvalM.fail (.notClause (← other.text m.levels))

/-- The expression counts as true. -/
def holds (m : Machine) (e : Value) (env : FrameId) (ctx : Context) : EvalM Bool := do
  return (← m.value e env ctx).isTrue

/-- The form `(and a b)`. -/
def evalAnd (m : Machine) (operands : Value) (env : FrameId) (ctx : Context) : EvalM Answer := do
  let (a, b) ← m.two operands
  if ← m.holds a env ctx then return .value (.bool (← m.holds b env ctx))
  else return .value (.bool false)

/-- The form `(or a b)`. -/
def evalOr (m : Machine) (operands : Value) (env : FrameId) (ctx : Context) : EvalM Answer := do
  let (a, b) ← m.two operands
  if ← m.holds a env ctx then return .value (.bool true)
  else return .value (.bool (← m.holds b env ctx))

end SmallLisp.Machine
