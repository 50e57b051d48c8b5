import SmallLisp.Eval.Context
import SmallLisp.Value.Parts
import SmallLisp.World

/-!
# Evaluators with so many levels

An evaluator may go down a number of levels: one for each expression inside an expression and one
for each call that is made and waited for. `Machine` is what such an evaluator offers to the rules
for the forms, which are written in terms of the machine one level below. Main statement: the
machine without levels evaluates nothing (`eval_exhausted`).
-/

namespace SmallLisp

/-- An evaluator that may go down `levels` levels. -/
structure Machine where
  levels : Nat
  /-- Evaluates an expression in a frame. -/
  eval : Value → FrameId → Context → EvalM Answer
  /-- Calls a function from a frame and makes all calls that it hands back. -/
  call : FrameId → Value → List Value → EvalM Value

namespace Machine

/-- The machine that has used up its levels. -/
def exhausted : Machine where
  levels := 0
  eval _ _ _ := EvalM.fail .stackExhausted
  call _ _ _ := EvalM.fail .stackExhausted

/-- Makes the call that an answer hands back. -/
def settle (m : Machine) (env : FrameId) : Answer → EvalM Value
  | .value v => pure v
  | .pending fn args => m.call env fn args

/-- The value of an expression that the form around it needs. -/
def value (m : Machine) (e : Value) (env : FrameId) (ctx : Context) : EvalM Value := do
  m.settle env (← m.eval e env ctx.inner)

/-- The values of expressions, evaluated from left to right. -/
def values (m : Machine) (es : List Value) (env : FrameId) (ctx : Context) : EvalM (List Value) :=
  es.mapM fun e => m.value e env ctx

/-- Evaluates expressions in order, the last of them in the place of the whole. -/
def evalBlock (m : Machine) (env : FrameId) (ctx : Context) : List Value → EvalM Answer
  | [] => EvalM.fail .emptyBody
  | [last] => m.eval last env ctx
  | form :: rest => do
    let _ ← m.value form env ctx
    m.evalBlock env ctx rest

/-- The first element of a list of operands. -/
def first (m : Machine) (operands : Value) : Except Error Value := operands.car m.levels

/-- The operands behind the first. -/
def others (m : Machine) (operands : Value) : Except Error Value := operands.cdr m.levels

/-- The second element of a list of operands. -/
def second (m : Machine) (operands : Value) : Except Error Value := do
  m.first (← m.others operands)

/-- Two expressions, both of which have to be there. -/
def two (m : Machine) (operands : Value) : Except Error (Value × Value) := do
  let a ← m.first operands
  let b ← m.second operands
  return (a, b)

theorem eval_exhausted (e : Value) (env : FrameId) (ctx : Context) :
    exhausted.eval e env ctx = EvalM.fail .stackExhausted := rfl

end Machine

end SmallLisp
