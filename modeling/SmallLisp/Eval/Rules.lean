import SmallLisp.Eval.Call
import SmallLisp.Eval.Form.Choice
import SmallLisp.Eval.Form.Function
import SmallLisp.Eval.SpecialForm

/-!
# The rules of evaluation

A symbol stands for its value, a list for a special form or a call, and everything else for
itself. The rules, applied to a machine, make a machine with one level more; applied again and
again to the machine without levels, they make the evaluator. Main statements: the evaluator with
one level more is given by the rules (`machine_succ`), and has that many levels
(`levels_machine`).
-/

namespace SmallLisp

namespace Machine

/-- Evaluates a special form. -/
def evalForm (m : Machine) (form : SpecialForm) (operands : Value) (env : FrameId)
    (ctx : Context) : EvalM Answer :=
  match form with
  | .define => m.evalDefine operands env ctx
  | .set => m.evalSet operands env ctx
  | .defun => m.evalDefun operands env
  | .lambda => m.evalLambda operands env
  | .quote => do return .value (← m.first operands)
  | .letBlock => m.evalLet operands env ctx
  | .begin => m.evalBlock env ctx operands.toList
  | .cond => m.evalCond env ctx operands.toList
  | .ifElse => m.evalIf operands env ctx
  | .and => m.evalAnd operands env ctx
  | .or => m.evalOr operands env ctx

/-- The special form that an operator marks. -/
def formOf? : Value → Option SpecialForm
  | .atom (.symbol s) => SpecialForm.ofSymbol? s
  | _ => none

/-- Evaluates an expression with a machine for the expressions inside. -/
def evalExpr (m : Machine) (e : Value) (env : FrameId) (ctx : Context) : EvalM Answer :=
  match e with
  | .atom (.symbol s) => do return .value (← EvalM.lookup env s)
  | .cons _ operator operands =>
    match formOf? operator with
    | some form => m.evalForm form operands env ctx
    | none => m.evalCall operator operands env ctx
  | other => return .value other

/-- The machine with one level more. -/
def next (bounces : Nat) (m : Machine) : Machine where
  levels := m.levels + 1
  eval := m.evalExpr
  call caller := m.runChain caller bounces

end Machine

/-- The bounds on a run. -/
structure Limits where
  /-- The number of levels. -/
  depth : Nat
  /-- The number of calls in a chain of tail calls. It bounds nothing but chains that never end. -/
  bounces : Nat

namespace Limits

/-- The bounds that hold unless a session sets others. -/
def standard : Limits := ⟨1000, 0x4000000000000000⟩

end Limits

/-- The evaluator with so many levels. -/
def machine (bounces : Nat) : Nat → Machine
  | 0 => Machine.exhausted
  | depth + 1 => (machine bounces depth).next bounces

/-- The evaluator within some bounds. -/
def Limits.machine (limits : Limits) : Machine := SmallLisp.machine limits.bounces limits.depth

theorem machine_succ (bounces depth : Nat) :
    machine bounces (depth + 1) = (machine bounces depth).next bounces := rfl

theorem levels_machine (bounces depth : Nat) : (machine bounces depth).levels = depth := by
  induction depth with
  | zero => rfl
  | succ depth ih => simp [machine_succ, Machine.next, ih]

end SmallLisp
