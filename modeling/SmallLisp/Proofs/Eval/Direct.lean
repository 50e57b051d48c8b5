import SmallLisp.Proofs.Eval.Correspondence

/-!
# Evaluation without deferred calls

The direct evaluator has the same rules, but no expression has a place: evaluating one always gives
a value, and every call is made at once, where it stands. Main statement: in a place that hands
nothing back, the rules of a machine whose expressions are evaluated directly are the direct rules
(`base_evalExpr`, `base_callAt`).
-/

namespace SmallLisp

/-- An evaluator that may go down `levels` levels and makes every call at once. -/
structure Direct where
  levels : Nat
  /-- The value of an expression in a frame. -/
  eval : Value → FrameId → EvalM Value
  /-- Calls a function from a frame. -/
  call : FrameId → Value → List Value → EvalM Value

namespace Direct

/-- The direct evaluator that has used up its levels. -/
def exhausted : Direct where
  levels := 0
  eval _ _ := EvalM.fail .stackExhausted
  call _ _ _ := EvalM.fail .stackExhausted

/-- The machine that offers the direct evaluator to the rules. Places make no difference to it. -/
def base (d : Direct) : Machine where
  levels := d.levels
  eval e env _ := Answer.value <$> d.eval e env
  call := d.call

/-- Evaluates expressions in order and gives the value of the last. -/
def evalBlock (d : Direct) (env : FrameId) : List Value → EvalM Value
  | [] => EvalM.fail .emptyBody
  | [last] => d.eval last env
  | form :: rest => do
    let _ ← d.eval form env
    d.evalBlock env rest

/-- The form `(define name value)`. -/
def evalDefine (d : Direct) (operands : Value) (env : FrameId) : EvalM Value := do
  let name ← d.base.nameAt .define (← d.base.first operands)
  let v ← d.eval (← d.base.second operands) env
  EvalM.define env name v
  return v

/-- The form `(set name value)`. -/
def evalSet (d : Direct) (operands : Value) (env : FrameId) : EvalM Value := do
  let name ← d.base.nameAt .set (← d.base.first operands)
  let v ← d.eval (← d.base.second operands) env
  let _ ← EvalM.assign env name v
  return v

/-- Binds the declarations of a `let` one after the other in its frame. -/
def declareAll (d : Direct) (frame : FrameId) : List Value → EvalM Unit
  | [] => pure ()
  | .cons _ target rest :: declarations => do
    let name ← d.base.nameAt .letDeclaration target
    let v ← d.eval (← d.base.first rest) frame
    EvalM.define frame name v
    d.declareAll frame declarations
  | other :: _ => do EvalM.fail (.notDeclaration (← other.text d.levels))

/-- The form `(let ((name value) ...) body ...)`. -/
def evalLet (d : Direct) (operands : Value) (env : FrameId) : EvalM Value := do
  let declarations ← d.base.first operands
  unless declarations.isList do EvalM.fail .notDeclarations
  let frame ← EvalM.newFrame (some env)
  d.declareAll frame declarations.toList
  d.evalBlock frame (← d.base.others operands).toList

/-- The form `(if test then else)`. -/
def evalIf (d : Direct) (operands : Value) (env : FrameId) : EvalM Value := do
  let test ← d.base.first operands
  let rest ← d.base.others operands
  let thenForm ← d.base.first rest
  let elseForm ← d.base.others rest
  if (← d.eval test env).isTrue then d.eval thenForm env
  else match elseForm with
    | .cons _ form _ => d.eval form env
    | _ => return .nil

/-- The form `(cond (test then) ...)`. -/
def evalCond (d : Direct) (env : FrameId) : List Value → EvalM Value
  | [] => return .nil
  | .cons _ test rest :: clauses => do
    let thenForm ← d.base.first rest
    if (← d.eval test env).isTrue then d.eval thenForm env
    else d.evalCond env clauses
  | other :: _ => do EvalM.fail (.notClause (← other.text d.levels))

/-- The form `(and a b)`. -/
def evalAnd (d : Direct) (operands : Value) (env : FrameId) : EvalM Value := do
  let (a, b) ← d.base.two operands
  if (← d.eval a env).isTrue then return .bool (← d.eval b env).isTrue
  else return .bool false

/-- The form `(or a b)`. -/
def evalOr (d : Direct) (operands : Value) (env : FrameId) : EvalM Value := do
  let (a, b) ← d.base.two operands
  if (← d.eval a env).isTrue then return .bool true
  else return .bool (← d.eval b env).isTrue

/-- The form `(lambda (parameter ...) body ...)`. -/
def evalLambda (d : Direct) (operands : Value) (env : FrameId) : EvalM Value := do
  let params ← d.base.first operands
  let body ← d.base.others operands
  d.base.makeClosure params body env none

/-- The form `(defun name (parameter ...) body ...)`. -/
def evalDefun (d : Direct) (operands : Value) (env : FrameId) : EvalM Value := do
  let name ← d.base.nameAt .defun (← d.base.first operands)
  let rest ← d.base.others operands
  let params ← d.base.first rest
  let body ← d.base.others rest
  EvalM.define env name (← d.base.makeClosure params body env (some name))
  return .nil

/-- Evaluates a special form. -/
def evalForm (d : Direct) (form : SpecialForm) (operands : Value) (env : FrameId) :
    EvalM Value :=
  match form with
  | .define => d.evalDefine operands env
  | .set => d.evalSet operands env
  | .defun => d.evalDefun operands env
  | .lambda => d.evalLambda operands env
  | .quote => d.base.first operands
  | .letBlock => d.evalLet operands env
  | .begin => d.evalBlock env operands.toList
  | .cond => d.evalCond env operands.toList
  | .ifElse => d.evalIf operands env
  | .and => d.evalAnd operands env
  | .or => d.evalOr operands env

/-- A call: operator and operands are evaluated from left to right, and the call is made. -/
def evalCall (d : Direct) (operator operands : Value) (env : FrameId) : EvalM Value := do
  let fn ← d.eval operator env
  let args ← operands.toList.mapM fun e => d.eval e env
  d.call env fn args

/-- Evaluates an expression with a direct evaluator for the expressions inside. -/
def evalExpr (d : Direct) (e : Value) (env : FrameId) : EvalM Value :=
  match e with
  | .atom (.symbol s) => EvalM.lookup env s
  | .cons _ operator operands =>
    match Machine.formOf? operator with
    | some form => d.evalForm form operands env
    | none => d.evalCall operator operands env
  | other => return other

/-- Makes a call. The body of a function is evaluated to its value. -/
def invoke (d : Direct) (caller : FrameId) (fn : Value) (args : List Value) : EvalM Value :=
  match fn with
  | .closure header body => do d.evalBlock (← Machine.openFrame header args) body.toList
  | .builtin op => d.base.runBuiltin caller op args
  | other => do EvalM.fail (.notCallable (← other.text d.levels))

/-- The direct evaluator with one level more. -/
def next (d : Direct) : Direct where
  levels := d.levels + 1
  eval := d.evalExpr
  call := d.invoke

end Direct

/-- The direct evaluator with so many levels. -/
def direct : Nat → Direct
  | 0 => Direct.exhausted
  | depth + 1 => (direct depth).next

theorem direct_succ (depth : Nat) : direct (depth + 1) = (direct depth).next := rfl

theorem levels_direct (depth : Nat) : (direct depth).levels = depth := by
  induction depth with
  | zero => rfl
  | succ depth ih => rw [direct_succ, Direct.next, ih]

namespace Direct

theorem base_value (d : Direct) (e : Value) (env : FrameId) (ctx : Context) :
    d.base.value e env ctx = d.eval e env := by
  simp [Machine.value, base, Machine.settle]

theorem base_values (d : Direct) (es : List Value) (env : FrameId) (ctx : Context) :
    d.base.values es env ctx = es.mapM fun e => d.eval e env := by
  simp only [Machine.values, base_value]

theorem base_evalBlock (d : Direct) (env : FrameId) (forms : List Value) (ctx : Context) :
    d.base.evalBlock env ctx forms = Answer.value <$> d.evalBlock env forms := by
  induction forms with
  | nil => rfl
  | cons form rest ih =>
    cases rest with
    | nil => rfl
    | cons next rest => simp only [Machine.evalBlock, base_value, ih, evalBlock, map_bind]

theorem base_evalDefine (d : Direct) (operands : Value) (env : FrameId) (ctx : Context) :
    d.base.evalDefine operands env ctx = Answer.value <$> d.evalDefine operands env := by
  simp only [Machine.evalDefine, base_value, evalDefine, map_bind, map_pure]

theorem base_evalSet (d : Direct) (operands : Value) (env : FrameId) (ctx : Context) :
    d.base.evalSet operands env ctx = Answer.value <$> d.evalSet operands env := by
  simp only [Machine.evalSet, base_value, evalSet, map_bind, map_pure]

theorem base_declareAll (d : Direct) (frame : FrameId) (declarations : List Value)
    (ctx : Context) :
    d.base.declareAll frame ctx declarations = d.declareAll frame declarations := by
  induction declarations with
  | nil => rfl
  | cons declaration declarations ih =>
    cases declaration with
    | cons id target rest => simp only [Machine.declareAll, base_value, ih, declareAll]
    | _ => rfl

theorem base_evalLet (d : Direct) (operands : Value) (env : FrameId) (ctx : Context) :
    d.base.evalLet operands env ctx = Answer.value <$> d.evalLet operands env := by
  simp only [Machine.evalLet, base_declareAll, base_evalBlock, evalLet, map_bind]
  apply bind_congr
  intro declarations
  split
  · simp only [map_bind]
  · rfl

theorem base_evalIf (d : Direct) (operands : Value) (env : FrameId) (ctx : Context) :
    d.base.evalIf operands env ctx = Answer.value <$> d.evalIf operands env := by
  simp only [Machine.evalIf, base_value, evalIf, map_bind]
  apply bind_congr
  intro test
  apply bind_congr
  intro rest
  apply bind_congr
  intro thenForm
  apply bind_congr
  intro elseForm
  apply bind_congr
  intro v
  split
  · rfl
  · cases elseForm <;> rfl

theorem base_evalCond (d : Direct) (env : FrameId) (clauses : List Value) (ctx : Context) :
    d.base.evalCond env ctx clauses = Answer.value <$> d.evalCond env clauses := by
  induction clauses with
  | nil => rfl
  | cons clause clauses ih =>
    cases clause with
    | cons id test rest =>
      simp only [Machine.evalCond, base_value, ih, evalCond, map_bind]
      apply bind_congr
      intro thenForm
      apply bind_congr
      intro v
      split <;> rfl
    | _ =>
      simp only [Machine.evalCond, evalCond, map_bind]
      exact bind_congr fun text => rfl

theorem base_holds (d : Direct) (e : Value) (env : FrameId) (ctx : Context) :
    d.base.holds e env ctx = Value.isTrue <$> d.eval e env := by
  rw [Machine.holds, base_value, bind_pure_comp]

theorem base_evalAnd (d : Direct) (operands : Value) (env : FrameId) (ctx : Context) :
    d.base.evalAnd operands env ctx = Answer.value <$> d.evalAnd operands env := by
  simp only [Machine.evalAnd, base_holds, evalAnd, map_bind, bind_map_left]
  apply bind_congr
  rintro ⟨a, b⟩
  apply bind_congr
  intro v
  split
  · simp only [map_bind, map_pure]
  · rfl

theorem base_evalOr (d : Direct) (operands : Value) (env : FrameId) (ctx : Context) :
    d.base.evalOr operands env ctx = Answer.value <$> d.evalOr operands env := by
  simp only [Machine.evalOr, base_holds, evalOr, map_bind, bind_map_left]
  apply bind_congr
  rintro ⟨a, b⟩
  apply bind_congr
  intro v
  split
  · rfl
  · simp only [map_bind, map_pure]

theorem base_evalLambda (d : Direct) (operands : Value) (env : FrameId) :
    d.base.evalLambda operands env = Answer.value <$> d.evalLambda operands env := by
  simp only [Machine.evalLambda, evalLambda, map_bind, bind_pure_comp]

theorem base_evalDefun (d : Direct) (operands : Value) (env : FrameId) :
    d.base.evalDefun operands env = Answer.value <$> d.evalDefun operands env := by
  simp only [Machine.evalDefun, evalDefun, map_bind, map_pure]

theorem base_evalForm (d : Direct) (form : SpecialForm) (operands : Value) (env : FrameId)
    (ctx : Context) :
    d.base.evalForm form operands env ctx = Answer.value <$> d.evalForm form operands env := by
  cases form with
  | define => exact d.base_evalDefine operands env ctx
  | set => exact d.base_evalSet operands env ctx
  | defun => exact d.base_evalDefun operands env
  | lambda => exact d.base_evalLambda operands env
  | quote => simp only [Machine.evalForm, evalForm, bind_pure_comp]
  | letBlock => exact d.base_evalLet operands env ctx
  | begin => exact d.base_evalBlock env operands.toList ctx
  | cond => exact d.base_evalCond env operands.toList ctx
  | ifElse => exact d.base_evalIf operands env ctx
  | and => exact d.base_evalAnd operands env ctx
  | or => exact d.base_evalOr operands env ctx

theorem base_evalCall (d : Direct) (operator operands : Value) (env : FrameId) {ctx : Context}
    (h : ctx.handsBack = false) :
    d.base.evalCall operator operands env ctx =
      Answer.value <$> d.evalCall operator operands env := by
  simp only [Machine.evalCall, base_value, base_values, evalCall, map_bind]
  apply bind_congr
  intro fn
  apply bind_congr
  intro args
  rw [Machine.finishCall_of_not_handsBack h, bind_pure_comp]
  rfl

/-- In a place that hands nothing back, the rules applied to direct evaluation are the direct
rules. -/
theorem base_evalExpr (d : Direct) (e : Value) (env : FrameId) {ctx : Context}
    (h : ctx.handsBack = false) :
    d.base.evalExpr e env ctx = Answer.value <$> d.evalExpr e env := by
  cases e with
  | atom a =>
    cases a with
    | symbol s => exact bind_pure_comp Answer.value (EvalM.lookup env s)
    | _ => rfl
  | cons id operator operands =>
    simp only [Machine.evalExpr, evalExpr]
    cases Machine.formOf? operator with
    | some form => exact d.base_evalForm form operands env ctx
    | none => exact d.base_evalCall operator operands env h
  | _ => rfl

/-- A call whose body is evaluated directly is a direct call. -/
theorem base_callAt (d : Direct) (ctx : Context) (caller : FrameId) (fn : Value)
    (args : List Value) :
    d.base.callAt ctx caller fn args = Answer.value <$> d.invoke caller fn args := by
  cases fn with
  | closure header body =>
    simp only [Machine.callAt, invoke, base_evalBlock, map_bind]
  | builtin op => exact bind_pure_comp Answer.value (d.base.runBuiltin caller op args)
  | _ =>
    simp only [Machine.callAt, invoke, map_bind]
    exact bind_congr fun text => rfl

end Direct

end SmallLisp
