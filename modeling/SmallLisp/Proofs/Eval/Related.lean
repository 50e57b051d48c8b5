import SmallLisp.Proofs.Eval.Correspondence

/-!
# Machines with related results

Two machines that give related results for the same expressions in the same places, and for the same
calls, give related results one level up. Main statements: `evalExpr` for expressions, `evalForm`
for special forms, `runBuiltin` for operations, `callOnce` and `runChain` for calls.
-/

namespace SmallLisp.Machine

/-- The machines give related results for the same expressions and calls, and what they find out
about operands and arguments without evaluating them is related too. -/
structure Related (c : Congruence EvalM) (m m' : Machine) : Prop where
  parts : ∀ {α : Type} {part : Machine → Except Error α}, ByLevels part →
    c.Rel (EvalM.ofExcept (part m)) (EvalM.ofExcept (part m'))
  eval : ∀ e env ctx, c.Rel (m.eval e env ctx) (m'.eval e env ctx)
  call : ∀ caller fn args, c.Rel (m.call caller fn args) (m'.call caller fn args)

namespace Related

variable {c : Congruence EvalM} {m m' : Machine}

theorem value (h : Related c m m') (e : Value) (env : FrameId) (ctx : Context) :
    c.Rel (m.value e env ctx) (m'.value e env ctx) := by
  refine c.bind (h.eval e env ctx.inner) fun answer => ?_
  cases answer with
  | value v => exact c.refl _
  | pending fn args => exact h.call env fn args

/-- Answers are taken as they come. -/
theorem corresponds (h : Related c m m') (ctx : Context) :
    Corresponds c m m' ctx ctx pure pure where
  parts := h.parts
  value e env := h.value e env ctx
  tail e env := by
    rw [bind_pure, bind_pure]
    exact h.eval e env ctx
  finish env fn args := by
    rw [bind_pure, bind_pure]
    unfold finishCall
    split
    · exact c.refl _
    · exact c.bind (h.call env fn args) fun v => c.refl _
  answer v := c.refl _

theorem evalExpr (h : Related c m m') (e : Value) (env : FrameId) (ctx : Context) :
    c.Rel (m.evalExpr e env ctx) (m'.evalExpr e env ctx) := by
  have related := (h.corresponds ctx).evalExpr e env
  rwa [bind_pure, bind_pure] at related

theorem evalForm (h : Related c m m') (form : SpecialForm) (operands : Value) (env : FrameId)
    (ctx : Context) :
    c.Rel (m.evalForm form operands env ctx) (m'.evalForm form operands env ctx) := by
  have related := (h.corresponds ctx).evalForm form operands env
  rwa [bind_pure, bind_pure] at related

theorem evalBlock (h : Related c m m') (env : FrameId) (ctx : Context) (forms : List Value) :
    c.Rel (m.evalBlock env ctx forms) (m'.evalBlock env ctx forms) := by
  have related := (h.corresponds ctx).evalBlock env forms
  rwa [bind_pure, bind_pure] at related

theorem runBuiltin (h : Related c m m') (caller : FrameId) (op : Builtin) (args : List Value) :
    c.Rel (m.runBuiltin caller op args) (m'.runBuiltin caller op args) :=
  runBuiltin_rel h.parts (h.call caller) op args

theorem callOnce (h : Related c m m') (caller : FrameId) (fn : Value) (args : List Value) :
    c.Rel (m.callOnce caller fn args) (m'.callOnce caller fn args) := by
  have related := (h.corresponds Context.functionBody).callAt (h.call caller) fn args
  rwa [bind_pure, bind_pure, ← callOnce_eq_callAt, ← callOnce_eq_callAt] at related

/-- Chains may be allowed different lengths if what stops the shorter is related to everything. -/
theorem runChain (h : Related c m m') (caller : FrameId) {bounces bounces' : Nat}
    (le : bounces ≤ bounces')
    (cut : bounces < bounces' → ∀ x : EvalM Value, c.Rel (throw .unfinished) x) (fn : Value)
    (args : List Value) :
    c.Rel (m.runChain caller bounces fn args) (m'.runChain caller bounces' fn args) := by
  induction bounces generalizing bounces' fn args with
  | zero =>
    cases bounces' with
    | zero => exact c.refl _
    | succ bounces' => exact cut (Nat.succ_pos bounces') _
  | succ bounces ih =>
    obtain ⟨bounces', rfl⟩ : ∃ k, bounces' = k + 1 := ⟨bounces' - 1, by omega⟩
    refine c.bind (h.callOnce caller fn args) fun answer => ?_
    cases answer with
    | value v => exact c.refl _
    | pending fn args =>
      exact ih (Nat.le_of_succ_le_succ le) (fun lt => cut (Nat.succ_lt_succ lt)) fn args

end Related

end SmallLisp.Machine
