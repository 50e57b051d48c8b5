import SmallLisp.Proofs.Eval.Direct

/-!
# Direct evaluation and the evaluator

The evaluator hands back a call at the end of the body of a function, to be made when the body is
done, so that a chain of such calls takes no more levels than one of them. Direct evaluation makes
it inside the body. Main statements: whatever is done with the calls that are handed back, the
evaluator does no more than direct evaluation with enough levels (`exists_upTo`), and no less than
direct evaluation with as many levels (`machine_covers`).
-/

namespace SmallLisp

open EvalM (boundOrder)

namespace Direct

variable {d d' : Direct}

theorem base_eval_settle (d : Direct) (e : Value) (env caller : FrameId) (ctx : Context) :
    d.base.eval e env ctx >>= d.base.settle caller = d.eval e env := by
  simp [base, Machine.settle]

theorem base_finishCall_settle (d : Direct) (env caller : FrameId) (fn : Value)
    (args : List Value) :
    d.base.finishCall env Context.topLevel fn args >>= d.base.settle caller =
      d.call env fn args := by
  rw [Machine.finishCall_of_not_handsBack rfl, bind_assoc]
  simp [base, Machine.settle]

theorem base_evalExpr_settle (d : Direct) (e : Value) (env caller : FrameId) :
    d.base.evalExpr e env Context.topLevel >>= d.base.settle caller = d.evalExpr e env := by
  rw [base_evalExpr d e env rfl]
  simp [Machine.settle]

theorem base_callAt_settle (d : Direct) (caller caller' : FrameId) (fn : Value)
    (args : List Value) :
    d.base.callAt Context.topLevel caller fn args >>= d.base.settle caller' =
      d.invoke caller fn args := by
  rw [base_callAt]
  simp [Machine.settle]

/-- A direct evaluator does what another does, unless the bounds of the other stop it, and makes no
difference between callers. -/
structure Within (d d' : Direct) : Prop where
  levels : d.levels ≤ d'.levels
  eval : ∀ e env, d.eval e env ≤ d'.eval e env
  call : ∀ caller caller' fn args, d.call caller fn args ≤ d'.call caller' fn args

namespace Within

theorem corresponds (h : Within d d') (caller : FrameId) :
    Machine.Corresponds boundOrder d.base d'.base Context.topLevel Context.topLevel
      (d.base.settle caller) (d'.base.settle caller) where
  parts by_levels := EvalM.ofExcept_le_ofExcept (by_levels h.levels)
  value e env := by
    rw [base_value, base_value]
    exact h.eval e env
  tail e env := by
    rw [base_eval_settle, base_eval_settle]
    exact h.eval e env
  finish env fn args := by
    rw [base_finishCall_settle, base_finishCall_settle]
    exact h.call env env fn args
  answer v := boundOrder.refl _

theorem next (h : Within d d') : Within d.next d'.next where
  levels := Nat.succ_le_succ h.levels
  eval e env := by
    have related := (h.corresponds env).evalExpr e env
    rwa [base_evalExpr_settle, base_evalExpr_settle] at related
  call caller caller' fn args := by
    have related := (h.corresponds caller).callAt (h.call caller caller') fn args
    rwa [base_callAt_settle, base_callAt_settle] at related

end Within

/-- More levels change nothing unless there were too few. -/
theorem within_of_le {n n' : Nat} (le : n ≤ n') : Within (direct n) (direct n') := by
  induction n generalizing n' with
  | zero =>
    exact ⟨Nat.zero_le _, fun _ _ => EvalM.fail_stackExhausted_le _,
      fun _ _ _ _ => EvalM.fail_stackExhausted_le _⟩
  | succ n ih =>
    obtain ⟨n', rfl⟩ : ∃ k, n' = k + 1 := ⟨n' - 1, by omega⟩
    exact (ih (Nat.le_of_succ_le_succ le)).next

end Direct

namespace Machine

variable {m : Machine} {n : Nat}

theorem runChain_succ (m : Machine) (caller : FrameId) (bounces : Nat) (fn : Value)
    (args : List Value) :
    m.runChain caller (bounces + 1) fn args =
      m.callOnce caller fn args >>= (m.next bounces).settle caller :=
  bind_congr fun answer => by cases answer <;> rfl

/-- What is done with answers gives values as they are, and does no more for a call that is handed
back than making it directly. -/
structure SettledBy (after : Answer → EvalM Value) (d : Direct) : Prop where
  value : ∀ v, after (.value v) = pure v
  pending : ∀ caller fn args, after (.pending fn args) ≤ d.call caller fn args

/-- All that the machine does, direct evaluation with `n` levels more does too. -/
structure UpTo (m : Machine) (n : Nat) : Prop where
  levels : m.levels ≤ n
  eval : ∀ {k : Nat} {after : Answer → EvalM Value}, SettledBy after (direct k) →
    ∀ e env ctx, m.eval e env ctx >>= after ≤ (direct (n + k)).eval e env
  call : ∀ caller caller' fn args, m.call caller fn args ≤ (direct n).call caller' fn args

namespace UpTo

theorem settledBy (h : m.UpTo n) (caller : FrameId) : SettledBy (m.settle caller) (direct n) :=
  ⟨fun _ => rfl, fun caller' fn args => h.call caller caller' fn args⟩

/-- One rule takes the levels for a value that a form needs, those for making the calls that are
handed back for it, and those for the calls that the form hands back itself. -/
theorem corresponds (h : m.UpTo n) {k : Nat} {after : Answer → EvalM Value}
    (settled : SettledBy after (direct k)) (ctx : Context) (caller : FrameId) :
    Corresponds boundOrder m (direct (n + n + k)).base ctx Context.topLevel after
      ((direct (n + n + k)).base.settle caller) where
  parts by_levels := by
    refine EvalM.ofExcept_le_ofExcept (by_levels ?_)
    show m.levels ≤ (direct (n + n + k)).levels
    rw [levels_direct]
    exact h.levels.trans (by omega)
  value e env := by
    rw [Direct.base_value]
    have more : Direct.Within (direct (n + n)) (direct (n + n + k)) :=
      Direct.within_of_le (by omega)
    exact (h.eval (h.settledBy env) e env ctx.inner).trans (more.eval e env)
  tail e env := by
    rw [Direct.base_eval_settle]
    have more : Direct.Within (direct (n + k)) (direct (n + n + k)) :=
      Direct.within_of_le (by omega)
    exact (h.eval settled e env ctx).trans (more.eval e env)
  finish env fn args := by
    rw [Direct.base_finishCall_settle]
    cases back : ctx.handsBack with
    | true =>
      rw [finishCall_of_handsBack back, pure_bind]
      have more : Direct.Within (direct k) (direct (n + n + k)) := Direct.within_of_le (by omega)
      exact (settled.pending env fn args).trans (more.call env env fn args)
    | false =>
      rw [finishCall_of_not_handsBack back, bind_assoc]
      simp only [pure_bind, settled.value, bind_pure]
      have more : Direct.Within (direct n) (direct (n + n + k)) := Direct.within_of_le (by omega)
      exact (h.call env env fn args).trans (more.call env env fn args)
  answer v := by
    rw [settled.value]
    exact boundOrder.refl _

theorem evalExpr (h : m.UpTo n) {k : Nat} {after : Answer → EvalM Value}
    (settled : SettledBy after (direct k)) (e : Value) (env : FrameId) (ctx : Context) :
    m.evalExpr e env ctx >>= after ≤ (direct (n + n + k + 1)).eval e env := by
  have related := (h.corresponds settled ctx env).evalExpr e env
  rwa [Direct.base_evalExpr_settle] at related

theorem callOnce (h : m.UpTo n) {k : Nat} {after : Answer → EvalM Value}
    (settled : SettledBy after (direct k)) (caller caller' : FrameId) (fn : Value)
    (args : List Value) :
    m.callOnce caller fn args >>= after ≤ (direct (n + n + k + 1)).call caller' fn args := by
  have more : Direct.Within (direct n) (direct (n + n + k)) := Direct.within_of_le (by omega)
  have call (fn args) : m.call caller fn args ≤ (direct (n + n + k)).base.call caller' fn args :=
    (h.call caller caller' fn args).trans (more.call caller' caller' fn args)
  have related := (h.corresponds settled Context.functionBody caller').callAt call fn args
  rwa [Direct.base_callAt_settle, ← callOnce_eq_callAt] at related

/-- Each call of a chain takes no more levels than the one before, on top of those for the calls
after it. -/
theorem runChain (h : m.UpTo n) (caller caller' : FrameId) (bounces : Nat) (fn : Value)
    (args : List Value) :
    m.runChain caller bounces fn args ≤
      (direct (bounces * (n + n + 1))).call caller' fn args := by
  induction bounces generalizing caller' fn args with
  | zero => exact EvalM.unfinished_le _
  | succ bounces ih =>
    rw [runChain_succ]
    have settled : SettledBy ((m.next bounces).settle caller) (direct (bounces * (n + n + 1))) :=
      ⟨fun _ => rfl, fun caller' fn args => ih caller' fn args⟩
    have once := h.callOnce settled caller caller' fn args
    have more : Direct.Within (direct (n + n + bounces * (n + n + 1) + 1))
        (direct ((bounces + 1) * (n + n + 1))) :=
      Direct.within_of_le (by rw [Nat.succ_mul]; omega)
    exact once.trans (more.call caller' caller' fn args)

theorem next (h : m.UpTo n) (bounces : Nat) :
    (m.next bounces).UpTo ((bounces + 1) * (n + n + 1)) where
  levels := by
    have := h.levels
    show m.levels + 1 ≤ _
    rw [Nat.succ_mul]
    omega
  eval settled e env ctx := (h.evalExpr settled e env ctx).trans
    ((Direct.within_of_le (by rw [Nat.succ_mul]; omega)).eval e env)
  call caller caller' fn args := (h.runChain caller caller' bounces fn args).trans
    ((Direct.within_of_le (by rw [Nat.succ_mul]; omega)).call caller' caller' fn args)

end UpTo

/-- Within any bounds, the evaluator does no more than direct evaluation with enough levels. -/
theorem exists_upTo (bounces depth : Nat) : ∃ n, (machine bounces depth).UpTo n := by
  induction depth with
  | zero =>
    refine ⟨0, Nat.le_refl _, fun _ _ _ _ => ?_, fun _ _ _ _ => EvalM.fail_stackExhausted_le _⟩
    exact EvalM.fail_stackExhausted_le _
  | succ depth ih =>
    obtain ⟨n, upTo⟩ := ih
    exact ⟨_, upTo.next bounces⟩

/-- What is done with answers gives values as they are, and does for a call that is handed back
what making it directly does. -/
structure Settles (after : Answer → EvalM Value) (d : Direct) : Prop where
  value : ∀ v, after (.value v) = pure v
  pending : ∀ caller fn args, d.call caller fn args ≤ after (.pending fn args)

/-- All that direct evaluation with up to `n` levels does, the machine does too. -/
structure Covers (m : Machine) (n : Nat) : Prop where
  levels : n ≤ m.levels
  eval : ∀ {k : Nat} {after : Answer → EvalM Value}, k ≤ n → Settles after (direct k) →
    ∀ e env ctx, (direct k).eval e env ≤ m.eval e env ctx >>= after
  call : ∀ caller caller' fn args, (direct n).call caller fn args ≤ m.call caller' fn args

namespace Covers

theorem value (h : m.Covers n) (e : Value) (env : FrameId) (ctx : Context) :
    (direct n).eval e env ≤ m.value e env ctx :=
  h.eval (Nat.le_refl n) ⟨fun _ => rfl, fun caller fn args => h.call caller env fn args⟩ e env
    ctx.inner

theorem corresponds (h : m.Covers n) {k : Nat} (le : k ≤ n) {after : Answer → EvalM Value}
    (settles : Settles after (direct k)) (ctx : Context) (caller : FrameId) :
    Corresponds boundOrder (direct k).base m Context.topLevel ctx
      ((direct k).base.settle caller) after where
  parts by_levels := by
    refine EvalM.ofExcept_le_ofExcept (by_levels ?_)
    show (direct k).levels ≤ m.levels
    rw [levels_direct]
    exact le.trans h.levels
  value e env := by
    rw [Direct.base_value]
    exact ((Direct.within_of_le le).eval e env).trans (h.value e env ctx)
  tail e env := by
    rw [Direct.base_eval_settle]
    exact h.eval le settles e env ctx
  finish env fn args := by
    rw [Direct.base_finishCall_settle]
    cases back : ctx.handsBack with
    | true =>
      rw [finishCall_of_handsBack back, pure_bind]
      exact settles.pending env fn args
    | false =>
      rw [finishCall_of_not_handsBack back, bind_assoc]
      simp only [pure_bind, settles.value, bind_pure]
      exact ((Direct.within_of_le le).call env env fn args).trans (h.call env env fn args)
  answer v := by
    rw [settles.value]
    exact boundOrder.refl _

theorem evalExpr (h : m.Covers n) {k : Nat} (le : k ≤ n) {after : Answer → EvalM Value}
    (settles : Settles after (direct k)) (e : Value) (env : FrameId) (ctx : Context) :
    (direct (k + 1)).eval e env ≤ m.evalExpr e env ctx >>= after := by
  have related := (h.corresponds le settles ctx env).evalExpr e env
  rwa [Direct.base_evalExpr_settle] at related

theorem callOnce (h : m.Covers n) {k : Nat} (le : k ≤ n) {after : Answer → EvalM Value}
    (settles : Settles after (direct k)) (caller caller' : FrameId) (fn : Value)
    (args : List Value) :
    (direct (k + 1)).call caller fn args ≤ m.callOnce caller' fn args >>= after := by
  have call (fn args) : (direct k).base.call caller fn args ≤ m.call caller' fn args :=
    ((Direct.within_of_le le).call caller caller fn args).trans (h.call caller caller' fn args)
  have related := (h.corresponds le settles Context.functionBody caller).callAt call fn args
  rwa [Direct.base_callAt_settle, ← callOnce_eq_callAt] at related

/-- A direct call makes the calls at the end of the body one inside the other, so its levels bound
the length of the chain too. -/
theorem runChain (h : m.Covers n) (caller caller' : FrameId) {k bounces : Nat} (le : k ≤ n + 1)
    (enough : k ≤ bounces) (fn : Value) (args : List Value) :
    (direct k).call caller fn args ≤ m.runChain caller' bounces fn args := by
  induction bounces generalizing k caller fn args with
  | zero =>
    obtain rfl := Nat.le_zero.1 enough
    exact EvalM.fail_stackExhausted_le _
  | succ bounces ih =>
    cases k with
    | zero => exact EvalM.fail_stackExhausted_le _
    | succ k =>
      rw [runChain_succ]
      have settles : Settles ((m.next bounces).settle caller') (direct k) :=
        ⟨fun _ => rfl, fun caller fn args => ih caller (by omega) (by omega) fn args⟩
      exact h.callOnce (Nat.le_of_succ_le_succ le) settles caller caller' fn args

theorem next (h : m.Covers n) {bounces : Nat} (enough : n + 1 ≤ bounces) :
    (m.next bounces).Covers (n + 1) where
  levels := Nat.succ_le_succ h.levels
  eval {k after} le settles e env ctx := by
    cases k with
    | zero => exact EvalM.fail_stackExhausted_le _
    | succ k =>
      have inside : Settles after (direct k) := by
        refine ⟨settles.value, fun caller fn args => ?_⟩
        have fewer := (Direct.within_of_le (Nat.le_succ k)).call caller caller fn args
        exact fewer.trans (settles.pending caller fn args)
      exact h.evalExpr (Nat.le_of_succ_le_succ le) inside e env ctx
  call caller caller' fn args := h.runChain caller caller' (Nat.le_refl _) enough fn args

end Covers

/-- With as many levels, and no fewer calls in a chain, the evaluator does what direct evaluation
does. -/
theorem machine_covers {bounces depth : Nat} (enough : depth ≤ bounces) :
    (machine bounces depth).Covers depth := by
  induction depth with
  | zero =>
    refine ⟨Nat.le_refl _, fun {k _} le _ _ _ _ => ?_,
      fun _ _ _ _ => EvalM.fail_stackExhausted_le _⟩
    obtain rfl := Nat.le_zero.1 le
    exact EvalM.fail_stackExhausted_le _
  | succ depth ih => exact (ih (Nat.le_of_succ_le enough)).next enough

end Machine

end SmallLisp
