import SmallLisp.Eval.Machine

/-!
# Forms that bind names

`define` binds in the frame at hand, `set` changes the nearest existing binding, and `let` binds
in a frame of its own, where each declaration sees the ones before it. All three look at the name
before they evaluate anything for it.
-/

namespace SmallLisp.Machine

/-- The symbol that stands in the place of a name. -/
def nameAt (m : Machine) (place : NamePlace) : Value → Except Error Symbol
  | .atom (.symbol s) => .ok s
  | other => do throw (.nameRequired place (← other.text m.levels) other.typeName)

/-- The form `(define name value)`, with the value as its result. -/
def evalDefine (m : Machine) (operands : Value) (env : FrameId) (ctx : Context) : EvalM Answer := do
  let name ← m.nameAt .define (← m.first operands)
  let v ← m.value (← m.second operands) env ctx
  EvalM.define env name v
  return .value v

/-- The form `(set name value)`, with the value as its result. -/
def evalSet (m : Machine) (operands : Value) (env : FrameId) (ctx : Context) : EvalM Answer := do
  let name ← m.nameAt .set (← m.first operands)
  let v ← m.value (← m.second operands) env ctx
  let _ ← EvalM.assign env name v
  return .value v

/-- Binds the declarations of a `let` one after the other in its frame. -/
def declareAll (m : Machine) (frame : FrameId) (ctx : Context) : List Value → EvalM Unit
  | [] => pure ()
  | .cons _ target rest :: declarations => do
    let name ← m.nameAt .letDeclaration target
    let v ← m.value (← m.first rest) frame ctx
    EvalM.define frame name v
    m.declareAll frame ctx declarations
  | other :: _ => do EvalM.fail (.notDeclaration (← other.text m.levels))

/-- The form `(let ((name value) ...) body ...)`. -/
def evalLet (m : Machine) (operands : Value) (env : FrameId) (ctx : Context) : EvalM Answer := do
  let declarations ← m.first operands
  unless declarations.isList do EvalM.fail .notDeclarations
  let frame ← EvalM.newFrame (some env)
  m.declareAll frame ctx declarations.toList
  m.evalBlock frame ctx (← m.others operands).toList

end SmallLisp.Machine
