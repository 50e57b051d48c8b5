import SmallLisp.Eval.Form.Naming

/-!
# Forms that make functions

A function keeps its parameters, its body as it was written, and the frame in which it was made. A
body without expressions is found out only when the function is called.
-/

namespace SmallLisp.Machine

/-- The symbols of a list of parameters, counted from `index`. -/
def symbolsFrom (index : Nat) : List Value → Except Error (List Symbol)
  | [] => .ok []
  | .atom (.symbol s) :: rest => (symbolsFrom (index + 1) rest).map (s :: ·)
  | other :: _ => .error (.notParameter index other.typeName)

/-- The parameters that an expression lists. -/
def parameters (m : Machine) (params : Value) : Except Error (List Symbol) :=
  if params.isList then symbolsFrom 0 params.toList
  else do throw (.notParameters (← params.text m.levels))

/-- Makes a function in a frame. -/
def makeClosure (m : Machine) (params body : Value) (env : FrameId) (name : Option Symbol) :
    EvalM Value := do
  let params ← m.parameters params
  return .closure ⟨← EvalM.newId, params, env, name⟩ body

/-- The form `(lambda (parameter ...) body ...)`. -/
def evalLambda (m : Machine) (operands : Value) (env : FrameId) : EvalM Answer := do
  let params ← m.first operands
  let body ← m.others operands
  return .value (← m.makeClosure params body env none)

/-- The form `(defun name (parameter ...) body ...)`, with the empty list as its result. -/
def evalDefun (m : Machine) (operands : Value) (env : FrameId) : EvalM Answer := do
  let name ← m.nameAt .defun (← m.first operands)
  let rest ← m.others operands
  let params ← m.first rest
  let body ← m.others rest
  EvalM.define env name (← m.makeClosure params body env (some name))
  return .value .nil

end SmallLisp.Machine
