import SmallLisp.Proofs.Eval.Levels

/-!
# Machines that correspond

The rules for the forms are written in terms of the machine one level below. Two machines that give
related results there give related results for every form and every call, whatever is done with
the answer afterwards. Main statements: `evalExpr` for expressions, `callOnce` for calls.
-/

namespace SmallLisp.Machine

variable {β : Type}

/-- Two machines, the places that expressions have for them, and what they do with answers
afterwards give related results. -/
structure Corresponds (c : Congruence EvalM) (m m' : Machine) (ctx ctx' : Context)
    (after after' : Answer → EvalM β) : Prop where
  /-- What the machines find out about operands and arguments without evaluating them. -/
  parts : ∀ {α : Type} {part : Machine → Except Error α}, ByLevels part →
    c.Rel (EvalM.ofExcept (part m)) (EvalM.ofExcept (part m'))
  /-- The values of expressions that a form needs. -/
  value : ∀ e env, c.Rel (m.value e env ctx) (m'.value e env ctx')
  /-- The answers that a form hands on. -/
  tail : ∀ e env, c.Rel (m.eval e env ctx >>= after) (m'.eval e env ctx' >>= after')
  /-- The calls that are made or handed back. -/
  finish : ∀ env fn args,
    c.Rel (m.finishCall env ctx fn args >>= after) (m'.finishCall env ctx' fn args >>= after')
  /-- The values that a form gives. -/
  answer : ∀ v, c.Rel (after (.value v)) (after' (.value v))

namespace Corresponds

variable {c : Congruence EvalM} {m m' : Machine} {ctx ctx' : Context}
  {after after' : Answer → EvalM β}

theorem part_bind (h : Corresponds c m m' ctx ctx' after after') {α γ : Type}
    {part : Machine → Except Error α} (part_by : ByLevels part) {f g : α → EvalM γ}
    (next : ∀ a, c.Rel (f a) (g a)) :
    c.Rel (EvalM.ofExcept (part m) >>= f) (EvalM.ofExcept (part m') >>= g) :=
  c.bind (h.parts part_by) next

theorem value_bind (h : Corresponds c m m' ctx ctx' after after') (e : Value) (env : FrameId)
    {γ : Type} {f g : Value → EvalM γ} (next : ∀ v, c.Rel (f v) (g v)) :
    c.Rel (m.value e env ctx >>= f) (m'.value e env ctx' >>= g) :=
  c.bind (h.value e env) next

theorem give (h : Corresponds c m m' ctx ctx' after after') (v : Value) :
    c.Rel (pure (.value v) >>= after) (pure (.value v) >>= after') := by
  rw [pure_bind, pure_bind]
  exact h.answer v

theorem stop (c : Congruence EvalM) {α : Type} (e : Error) (f g : α → EvalM β) :
    c.Rel (EvalM.fail e >>= f) (EvalM.fail e >>= g) := c.refl (EvalM.fail e)

theorem values (h : Corresponds c m m' ctx ctx' after after') (es : List Value) (env : FrameId) :
    c.Rel (m.values es env ctx) (m'.values es env ctx') :=
  c.mapM (fun e => h.value e env) es

theorem evalBlock (h : Corresponds c m m' ctx ctx' after after') (env : FrameId)
    (forms : List Value) :
    c.Rel (m.evalBlock env ctx forms >>= after) (m'.evalBlock env ctx' forms >>= after') := by
  induction forms with
  | nil => exact stop c _ _ _
  | cons form rest ih =>
    cases rest with
    | nil => exact h.tail form env
    | cons next rest =>
      simp only [Machine.evalBlock, bind_assoc]
      apply h.value_bind form env
      intro _
      exact ih

theorem evalDefine (h : Corresponds c m m' ctx ctx' after after') (operands : Value)
    (env : FrameId) :
    c.Rel (m.evalDefine operands env ctx >>= after)
      (m'.evalDefine operands env ctx' >>= after') := by
  simp only [Machine.evalDefine, bind_assoc]
  apply h.part_bind (.first operands)
  intro target
  apply h.part_bind (.nameAt _ target)
  intro name
  apply h.part_bind (.second operands)
  intro e
  apply h.value_bind e env
  intro v
  exact c.bind_left _ fun _ => h.give v

theorem evalSet (h : Corresponds c m m' ctx ctx' after after') (operands : Value)
    (env : FrameId) :
    c.Rel (m.evalSet operands env ctx >>= after) (m'.evalSet operands env ctx' >>= after') := by
  simp only [Machine.evalSet, bind_assoc]
  apply h.part_bind (.first operands)
  intro target
  apply h.part_bind (.nameAt _ target)
  intro name
  apply h.part_bind (.second operands)
  intro e
  apply h.value_bind e env
  intro v
  exact c.bind_left _ fun _ => h.give v

theorem declareAll (h : Corresponds c m m' ctx ctx' after after') (frame : FrameId)
    (declarations : List Value) :
    c.Rel (m.declareAll frame ctx declarations) (m'.declareAll frame ctx' declarations) := by
  induction declarations with
  | nil => exact c.refl _
  | cons declaration declarations ih =>
    cases declaration with
    | cons id target rest =>
      apply h.part_bind (.nameAt _ target)
      intro name
      apply h.part_bind (.first rest)
      intro e
      apply h.value_bind e frame
      intro v
      exact c.bind_left _ fun _ => ih
    | _ => exact h.part_bind (.text _) fun text => c.refl _

theorem evalLet (h : Corresponds c m m' ctx ctx' after after') (operands : Value)
    (env : FrameId) :
    c.Rel (m.evalLet operands env ctx >>= after) (m'.evalLet operands env ctx' >>= after') := by
  simp only [Machine.evalLet, bind_assoc]
  apply h.part_bind (.first operands)
  intro declarations
  split
  · simp only [bind_assoc]
    apply c.bind_left
    intro frame
    apply c.bind (h.declareAll frame declarations.toList)
    intro _
    apply h.part_bind (.others operands)
    intro body
    exact h.evalBlock frame body.toList
  · exact stop c _ _ _

theorem makeClosure (h : Corresponds c m m' ctx ctx' after after') (params body : Value)
    (env : FrameId) (name : Option Symbol) :
    c.Rel (m.makeClosure params body env name) (m'.makeClosure params body env name) :=
  h.part_bind (.parameters params) fun _ => c.refl _

theorem evalLambda (h : Corresponds c m m' ctx ctx' after after') (operands : Value)
    (env : FrameId) :
    c.Rel (m.evalLambda operands env >>= after) (m'.evalLambda operands env >>= after') := by
  simp only [Machine.evalLambda, bind_assoc]
  apply h.part_bind (.first operands)
  intro params
  apply h.part_bind (.others operands)
  intro body
  exact c.bind (h.makeClosure params body env none) h.give

theorem evalDefun (h : Corresponds c m m' ctx ctx' after after') (operands : Value)
    (env : FrameId) :
    c.Rel (m.evalDefun operands env >>= after) (m'.evalDefun operands env >>= after') := by
  simp only [Machine.evalDefun, bind_assoc]
  apply h.part_bind (.first operands)
  intro target
  apply h.part_bind (.nameAt _ target)
  intro name
  apply h.part_bind (.others operands)
  intro rest
  apply h.part_bind (.first rest)
  intro params
  apply h.part_bind (.others rest)
  intro body
  apply c.bind (h.makeClosure params body env _)
  intro v
  exact c.bind_left _ fun _ => h.give .nil

theorem evalIf (h : Corresponds c m m' ctx ctx' after after') (operands : Value) (env : FrameId) :
    c.Rel (m.evalIf operands env ctx >>= after) (m'.evalIf operands env ctx' >>= after') := by
  simp only [Machine.evalIf, bind_assoc]
  apply h.part_bind (.first operands)
  intro test
  apply h.part_bind (.others operands)
  intro rest
  apply h.part_bind (.first rest)
  intro thenForm
  apply h.part_bind (.others rest)
  intro elseForm
  apply h.value_bind test env
  intro v
  split
  · exact h.tail thenForm env
  · cases elseForm with
    | cons id form rest => exact h.tail form env
    | _ => exact h.give .nil

theorem evalCond (h : Corresponds c m m' ctx ctx' after after') (env : FrameId)
    (clauses : List Value) :
    c.Rel (m.evalCond env ctx clauses >>= after) (m'.evalCond env ctx' clauses >>= after') := by
  induction clauses with
  | nil => exact h.give .nil
  | cons clause clauses ih =>
    cases clause with
    | cons id test rest =>
      simp only [Machine.evalCond, bind_assoc]
      apply h.part_bind (.first rest)
      intro thenForm
      apply h.value_bind test env
      intro v
      split
      · exact h.tail thenForm env
      · exact ih
    | _ =>
      simp only [Machine.evalCond, bind_assoc]
      exact h.part_bind (.text _) fun text => stop c _ _ _

theorem holds (h : Corresponds c m m' ctx ctx' after after') (e : Value) (env : FrameId) :
    c.Rel (m.holds e env ctx) (m'.holds e env ctx') :=
  h.value_bind e env fun v => c.refl (pure v.isTrue)

theorem evalAnd (h : Corresponds c m m' ctx ctx' after after') (operands : Value)
    (env : FrameId) :
    c.Rel (m.evalAnd operands env ctx >>= after) (m'.evalAnd operands env ctx' >>= after') := by
  simp only [Machine.evalAnd, bind_assoc]
  apply h.part_bind (.two operands)
  rintro ⟨a, b⟩
  apply c.bind (h.holds a env)
  intro decided
  cases decided with
  | true =>
    rw [if_pos rfl, if_pos rfl, bind_assoc, bind_assoc]
    exact c.bind (h.holds b env) fun v => h.give (.bool v)
  | false => exact h.give (.bool false)

theorem evalOr (h : Corresponds c m m' ctx ctx' after after') (operands : Value)
    (env : FrameId) :
    c.Rel (m.evalOr operands env ctx >>= after) (m'.evalOr operands env ctx' >>= after') := by
  simp only [Machine.evalOr, bind_assoc]
  apply h.part_bind (.two operands)
  rintro ⟨a, b⟩
  apply c.bind (h.holds a env)
  intro decided
  cases decided with
  | true => exact h.give (.bool true)
  | false =>
    rw [if_neg Bool.false_ne_true, if_neg Bool.false_ne_true, bind_assoc, bind_assoc]
    exact c.bind (h.holds b env) fun v => h.give (.bool v)

theorem evalForm (h : Corresponds c m m' ctx ctx' after after') (form : SpecialForm)
    (operands : Value) (env : FrameId) :
    c.Rel (m.evalForm form operands env ctx >>= after)
      (m'.evalForm form operands env ctx' >>= after') := by
  cases form with
  | define => exact h.evalDefine operands env
  | set => exact h.evalSet operands env
  | defun => exact h.evalDefun operands env
  | lambda => exact h.evalLambda operands env
  | quote =>
    simp only [Machine.evalForm, bind_assoc]
    exact h.part_bind (.first operands) h.give
  | letBlock => exact h.evalLet operands env
  | begin => exact h.evalBlock env operands.toList
  | cond => exact h.evalCond env operands.toList
  | ifElse => exact h.evalIf operands env
  | and => exact h.evalAnd operands env
  | or => exact h.evalOr operands env

theorem evalCall (h : Corresponds c m m' ctx ctx' after after') (operator operands : Value)
    (env : FrameId) :
    c.Rel (m.evalCall operator operands env ctx >>= after)
      (m'.evalCall operator operands env ctx' >>= after') := by
  simp only [Machine.evalCall, bind_assoc]
  apply h.value_bind operator env
  intro fn
  apply c.bind (h.values operands.toList env)
  intro args
  exact h.finish env fn args

/-- Corresponding machines make corresponding machines of one level more. -/
theorem evalExpr (h : Corresponds c m m' ctx ctx' after after') (e : Value) (env : FrameId) :
    c.Rel (m.evalExpr e env ctx >>= after) (m'.evalExpr e env ctx' >>= after') := by
  unfold Machine.evalExpr
  split
  · rw [bind_assoc, bind_assoc]
    exact c.bind_left _ fun v => h.give v
  · split
    · exact h.evalForm _ _ env
    · exact h.evalCall _ _ env
  · exact h.give _

end Corresponds

/-- Machines that give related results when they call functions run operations with related
results. -/
theorem runBuiltin_rel {c : Congruence EvalM} {m m' : Machine} {caller caller' : FrameId}
    (parts : ∀ {α : Type} {part : Machine → Except Error α}, ByLevels part →
      c.Rel (EvalM.ofExcept (part m)) (EvalM.ofExcept (part m')))
    (call : ∀ fn args, c.Rel (m.call caller fn args) (m'.call caller' fn args)) (op : Builtin)
    (args : List Value) :
    c.Rel (m.runBuiltin caller op args) (m'.runBuiltin caller' op args) := by
  cases op with
  | add | sub | mul | div => exact parts ((ByLevels.numbers _ args).andThen _)
  | mod => exact parts ((ByLevels.remainder args).andThen _)
  | equals => exact parts ((ByLevels.equalAll args).andThen _)
  | less | lessEq | greater | greaterEq => exact parts (.compareAll _ _ args)
  | not | null => exact c.refl _
  | car => exact parts ((ByLevels.const (Builtin.car.one args)).bind .first)
  | cdr => exact parts ((ByLevels.const (Builtin.cdr.one args)).bind .others)
  | length => exact parts (ByLevels.length args)
  | cons => exact c.bind (parts (.consArguments args)) fun _ => c.refl _
  | list => exact c.refl _
  | apply => exact c.bind (parts (.applyArguments args)) fun (fn, items) => call fn items
  | print => exact c.bind (parts (.line args)) fun _ => c.refl _

/-- Makes one call, with the body of a function in a place that is given. -/
def callAt (m : Machine) (ctx : Context) (caller : FrameId) (fn : Value) (args : List Value) :
    EvalM Answer :=
  match fn with
  | .closure header body => do m.evalBlock (← openFrame header args) ctx body.toList
  | .builtin op => do return .value (← m.runBuiltin caller op args)
  | other => do EvalM.fail (.notCallable (← other.text m.levels))

theorem callOnce_eq_callAt (m : Machine) (caller : FrameId) (fn : Value) (args : List Value) :
    m.callOnce caller fn args = m.callAt Context.functionBody caller fn args := by
  cases fn <;> rfl

/-- Corresponding machines make related calls. -/
theorem Corresponds.callAt {c : Congruence EvalM} {m m' : Machine} {ctx ctx' : Context}
    {after after' : Answer → EvalM β} (h : Corresponds c m m' ctx ctx' after after')
    {caller caller' : FrameId}
    (call : ∀ fn args, c.Rel (m.call caller fn args) (m'.call caller' fn args)) (fn : Value)
    (args : List Value) :
    c.Rel (m.callAt ctx caller fn args >>= after) (m'.callAt ctx' caller' fn args >>= after') := by
  cases fn with
  | closure header body =>
    simp only [Machine.callAt, bind_assoc]
    apply c.bind_left
    intro frame
    exact h.evalBlock frame body.toList
  | builtin op =>
    simp only [Machine.callAt, bind_assoc]
    exact c.bind (runBuiltin_rel h.parts call op args) h.give
  | _ =>
    simp only [Machine.callAt, bind_assoc]
    exact h.part_bind (.text _) fun text => Corresponds.stop c _ _ _

end SmallLisp.Machine
