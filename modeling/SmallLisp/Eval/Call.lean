import SmallLisp.Eval.Builtin

/-!
# Calls

A call of a function made by the program runs its body in a frame of its own. The body may hand
back a call instead of a value, which is then made in its place, so that a chain of such calls
takes no more levels than one of them. Main statements: a call in tail position of a body is
handed back (`finishCall_of_handsBack`), and any other is made (`finishCall_of_not_handsBack`).
-/

namespace SmallLisp.Machine

/-- The number of arguments that a list of parameters names. -/
def requiredCount (params : List Symbol) : Nat :=
  (params.filter (· ≠ Symbol.ellipsis)).length

/-- What messages call a function. -/
def calleeName (name : Option Symbol) : String := (name.map Symbol.name).getD "lambda"

/-- Binds parameters to arguments in a frame. The rest marker takes all arguments that are left and
ends the parameters. Arguments without a parameter are dropped. -/
def bindParameters (frame : FrameId) (tooFew : Error) : List Symbol → List Value → EvalM Unit
  | [], _ => pure ()
  | p :: params, args =>
    if p = Symbol.ellipsis then do
      EvalM.define frame p (← EvalM.newList args)
    else match args with
      | [] => EvalM.fail tooFew
      | a :: args => do
        EvalM.define frame p a
        bindParameters frame tooFew params args

/-- Makes the frame for a call of a function. -/
def openFrame (header : ClosureHeader) (args : List Value) : EvalM FrameId := do
  let frame ← EvalM.newFrame (some header.env)
  let tooFew :=
    Error.missingArguments (calleeName header.name) (requiredCount header.params) args.length
  bindParameters frame tooFew header.params args
  return frame

/-- Makes one call. -/
def callOnce (m : Machine) (caller : FrameId) (fn : Value) (args : List Value) : EvalM Answer :=
  match fn with
  | .closure header body => do
    m.evalBlock (← openFrame header args) Context.functionBody body.toList
  | .builtin op => do return .value (← m.runBuiltin caller op args)
  | other => do EvalM.fail (.notCallable (← other.text m.levels))

/-- Makes a call and all calls that are handed back in its place, at most so many. -/
def runChain (m : Machine) (caller : FrameId) : Nat → Value → List Value → EvalM Value
  | 0, _, _ => throw .unfinished
  | bounces + 1, fn, args => do
    match ← m.callOnce caller fn args with
    | .value v => return v
    | .pending fn args => m.runChain caller bounces fn args

/-- The end of a call, once operator and operands have their values: it is made or handed back. -/
def finishCall (m : Machine) (env : FrameId) (ctx : Context) (fn : Value) (args : List Value) :
    EvalM Answer :=
  if ctx.handsBack then return .pending fn args
  else do return .value (← m.call env fn args)

/-- A call: operator and operands are evaluated from left to right before it is made. -/
def evalCall (m : Machine) (operator operands : Value) (env : FrameId) (ctx : Context) :
    EvalM Answer := do
  let fn ← m.value operator env ctx
  let args ← m.values operands.toList env ctx
  m.finishCall env ctx fn args

theorem finishCall_of_handsBack {ctx : Context} (h : ctx.handsBack = true) (m : Machine)
    (env : FrameId) (fn : Value) (args : List Value) :
    m.finishCall env ctx fn args = pure (.pending fn args) := by
  simp [finishCall, h]

theorem finishCall_of_not_handsBack {ctx : Context} (h : ctx.handsBack = false) (m : Machine)
    (env : FrameId) (fn : Value) (args : List Value) :
    m.finishCall env ctx fn args = (do return .value (← m.call env fn args)) := by
  simp [finishCall, h]

end SmallLisp.Machine
