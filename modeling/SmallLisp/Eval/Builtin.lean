import SmallLisp.Builtin.Equals
import SmallLisp.Builtin.Numeric
import SmallLisp.Builtin.Print
import SmallLisp.Eval.Machine

/-!
# Running operations

What each built-in operation does with its arguments. Most compute a value from them alone. Lists
take new cells, `print` adds to the printed text, and `apply` makes a call from the frame that
called it.
-/

namespace SmallLisp.Machine

open Builtin

/-- The pair of arguments of `cons`, the second of which has to be a list. -/
def consArguments (levels : Nat) (args : List Value) : Except Error (Value × Value) := do
  let (head, rest) ← Builtin.cons.two args
  return (head, ← Builtin.cons.listArgument levels rest)

/-- The function and the arguments that `apply` is given. -/
def applyArguments (levels : Nat) (args : List Value) : Except Error (Value × List Value) := do
  let (fn, items) ← Builtin.apply.two args
  return (fn, (← Builtin.apply.listArgument levels items).toList)

/-- Runs an operation for a call that stands in a frame. -/
def runBuiltin (m : Machine) (caller : FrameId) (op : Builtin) (args : List Value) :
    EvalM Value :=
  match op with
  | .add => EvalM.ofExcept do return .number (← sum (← op.numbers m.levels args))
  | .sub => EvalM.ofExcept do return .number (← difference (← op.numbers m.levels args))
  | .mul => EvalM.ofExcept do return .number (← product (← op.numbers m.levels args))
  | .div => EvalM.ofExcept do return .number (← quotient (← op.numbers m.levels args))
  | .mod => EvalM.ofExcept do return .number (← remainder m.levels args)
  | .equals => EvalM.ofExcept do return .bool (← equalAll m.levels args)
  | .less => EvalM.ofExcept (compareAll op Number.less m.levels args)
  | .lessEq => EvalM.ofExcept (compareAll op Number.lessEq m.levels args)
  | .greater => EvalM.ofExcept (compareAll op Number.greater m.levels args)
  | .greaterEq => EvalM.ofExcept (compareAll op Number.greaterEq m.levels args)
  | .not => EvalM.ofExcept do return .bool !(← op.one args).isTrue
  | .car => EvalM.ofExcept do (← op.one args).car m.levels
  | .cdr => EvalM.ofExcept do (← op.one args).cdr m.levels
  | .null => EvalM.ofExcept do return .bool ((← op.one args) == .nil)
  | .length => EvalM.ofExcept do
    return .number (.int (← op.listArgument m.levels (← op.one args)).toList.length)
  | .cons => do
    let (head, rest) ← consArguments m.levels args
    EvalM.newCell head rest
  | .list => EvalM.newList args
  | .apply => do
    let (fn, items) ← applyArguments m.levels args
    m.call caller fn items
  | .print => do
    EvalM.emit (← line m.levels args)
    return .nil

end SmallLisp.Machine
