import SmallLisp.Proofs.Eval.Related

/-!
# Wider bounds

A machine with more levels and longer chains does all that a machine with fewer does. Main
statements: what is within one machine is within the machines that the rules make of it
(`Within.next`), so an evaluator is within every evaluator with wider bounds
(`activations_within`).
-/

namespace SmallLisp

open EvalM (boundOrder)

namespace Machine

variable {m m' : Machine}

/-- The second machine does what the first does, unless the bounds of the first stop it. -/
structure Within (m m' : Machine) : Prop where
  levels : m.levels ≤ m'.levels
  eval : ∀ e env ctx, m.eval e env ctx ≤ m'.eval e env ctx
  call : ∀ caller fn args, m.call caller fn args ≤ m'.call caller fn args

namespace Within

theorem related (h : Within m m') : Related boundOrder m m' where
  parts by_levels := EvalM.ofExcept_le_ofExcept (by_levels h.levels)
  eval := h.eval
  call := h.call

theorem callOnce (h : Within m m') (caller : FrameId) (fn : Value) (args : List Value) :
    m.callOnce caller fn args ≤ m'.callOnce caller fn args :=
  h.related.callOnce caller fn args

theorem runChain (h : Within m m') (caller : FrameId) {bounces bounces' : Nat}
    (le : bounces ≤ bounces') (fn : Value) (args : List Value) :
    m.runChain caller bounces fn args ≤ m'.runChain caller bounces' fn args :=
  h.related.runChain caller le (fun _ x => EvalM.unfinished_le x) fn args

theorem next (h : Within m m') {bounces bounces' : Nat} (le : bounces ≤ bounces') :
    Within (m.next bounces) (m'.next bounces') where
  levels := Nat.succ_le_succ h.levels
  eval := h.related.evalExpr
  call caller fn args := h.runChain caller le fn args

end Within

end Machine

/-- The evaluator in which so many expressions and calls may stand inside one another. Besides the
levels that these take, there are `spare` levels for writing and comparing values. -/
def activations (spare bounces : Nat) : Nat → Machine
  | 0 => { Machine.exhausted with levels := spare }
  | depth + 1 => (activations spare bounces depth).next bounces

theorem levels_activations (spare bounces depth : Nat) :
    (activations spare bounces depth).levels = spare + depth := by
  induction depth with
  | zero => rfl
  | succ depth ih => rw [activations, Machine.next, ih, Nat.add_assoc]

theorem machine_eq_activations (bounces depth : Nat) :
    machine bounces depth = activations 0 bounces depth := by
  induction depth with
  | zero => rfl
  | succ depth ih => rw [machine_succ, ih, activations]

/-- Wider bounds change nothing unless the narrower stop the run. -/
theorem activations_within {spare spare' bounces bounces' depth depth' : Nat}
    (spares : spare ≤ spare') (chains : bounces ≤ bounces') (depths : depth ≤ depth') :
    (activations spare bounces depth).Within (activations spare' bounces' depth') := by
  induction depth generalizing depth' with
  | zero =>
    refine ⟨?_, fun _ _ _ => EvalM.fail_stackExhausted_le _,
      fun _ _ _ => EvalM.fail_stackExhausted_le _⟩
    rw [levels_activations, levels_activations]
    omega
  | succ depth ih =>
    obtain ⟨depth', rfl⟩ : ∃ k, depth' = k + 1 := ⟨depth' - 1, by omega⟩
    exact (ih (Nat.le_of_succ_le_succ depths)).next chains

theorem machine_within {bounces bounces' depth depth' : Nat} (chains : bounces ≤ bounces')
    (depths : depth ≤ depth') : (machine bounces depth).Within (machine bounces' depth') := by
  rw [machine_eq_activations, machine_eq_activations]
  exact activations_within (Nat.le_refl 0) chains depths

/-- There are bounds wider than both. -/
theorem Limits.exists_wider (limits limits' : Limits) : ∃ both : Limits,
    limits.machine.Within both.machine ∧ limits'.machine.Within both.machine :=
  ⟨⟨max limits.depth limits'.depth, max limits.bounces limits'.bounces⟩,
    machine_within (Nat.le_max_left ..) (Nat.le_max_left ..),
    machine_within (Nat.le_max_right ..) (Nat.le_max_right ..)⟩

end SmallLisp
