import SmallLisp.Proofs.Eval.Simulation

/-!
# Deferred calls change nothing

Main statement: an expression has the outcome that direct evaluation gives it, in every place and
whoever makes the calls that it hands back (`eval_ends_iff_direct`).
-/

namespace SmallLisp

open EvalM (Ends)

namespace Machine

/-- Nothing is handed back from places that do not hand calls back: what would be done with a call
makes no difference. -/
def GivesValues (m : Machine) : Prop :=
  ∀ ⦃ctx : Context⦄, ctx.handsBack = false → ∀ (e : Value) (env : FrameId) {β : Type}
    {after after' : Answer → EvalM β}, (∀ v, after (.value v) = after' (.value v)) →
    m.eval e env ctx >>= after = m.eval e env ctx >>= after'

theorem GivesValues.next {m : Machine} (h : m.GivesValues) (bounces : Nat) :
    (m.next bounces).GivesValues := by
  intro ctx direct e env β after after' same
  have corresponds : Corresponds Congruence.equality m m ctx ctx after after' :=
    { parts := fun _ => rfl
      value := fun _ _ => rfl
      tail := fun e env => h direct e env same
      finish := fun env fn args => by
        rw [finishCall_of_not_handsBack direct, bind_assoc, bind_assoc]
        simp only [pure_bind, same]
        rfl
      answer := same }
  exact corresponds.evalExpr e env

theorem givesValues_machine (bounces depth : Nat) : (machine bounces depth).GivesValues := by
  induction depth with
  | zero =>
    intro ctx direct e env β after after' same
    rfl
  | succ depth ih => exact ih.next bounces

/-- A call never comes back from a place that does not hand calls back. -/
theorem not_pending (limits : Limits) {ctx : Context} (direct : ctx.handsBack = false) (e : Value)
    (env : FrameId) (w : World) (fn : Value) (args : List Value) (w' : World) :
    (limits.machine.eval e env ctx).runFrom w ≠ (.ok (.pending fn args), w') := by
  intro run
  have same : limits.machine.eval e env ctx >>= (fun _ => pure true) =
      limits.machine.eval e env ctx >>= fun answer => pure (answer matches .value _) :=
    givesValues_machine limits.bounces limits.depth direct e env fun _ => rfl
  have runs := congrArg (EvalM.runFrom w) same
  rw [EvalM.runFrom_bind_ok run, EvalM.runFrom_bind_ok run] at runs
  cases runs

/-- An answer that is a value makes no difference to how a run ends. -/
theorem ends_settle_iff {x : EvalM Answer} {after : Answer → EvalM Value} {w w' : World}
    {result : Except Error Value} (value : ∀ v, after (.value v) = pure v)
    (made : ∀ fn args w'', x.runFrom w ≠ (.ok (.pending fn args), w'')) :
    (x >>= after).Ends w result w' ↔ x.Ends w (result.map Answer.value) w' := by
  rcases run : x.runFrom w with ⟨s | answer, w₁⟩
  · have runs := EvalM.runFrom_bind_error run after
    cases result with
    | ok v => simp [Ends, run, runs, Except.map, Except.mapError]
    | error e => simp [Ends, run, runs, Except.map, Except.mapError]
  · cases answer with
    | pending fn args => exact absurd run (made fn args w₁)
    | value v =>
      have runs := EvalM.runFrom_bind_ok run after
      rw [value] at runs
      cases result with
      | ok v => simp [Ends, run, runs, Except.map, Except.mapError, EvalM.runFrom_pure]
      | error e => simp [Ends, run, runs, Except.map, Except.mapError, EvalM.runFrom_pure]

end Machine

namespace Direct

/-- Direct evaluation of an expression ends like this, given enough levels. -/
def Ends (e : Value) (env : FrameId) (w : World) (result : Except Error Value) (w' : World) :
    Prop :=
  ∃ depth, ((direct depth).eval e env).Ends w result w'

variable {e : Value} {env : FrameId} {w w' w'' : World} {result other : Except Error Value}

theorem Ends.unique (h : Ends e env w result w') (h' : Ends e env w other w'') :
    result = other ∧ w' = w'' := by
  obtain ⟨n, ends⟩ := h
  obtain ⟨n', ends'⟩ := h'
  have le := (within_of_le (Nat.le_max_left n n')).eval e env
  have le' := (within_of_le (Nat.le_max_right n n')).eval e env
  exact (ends.of_le le).unique (ends'.of_le le')

/-- Whatever bounds hold for an expression and for the calls that it hands back, a run that ends
within them ends as direct evaluation does. -/
theorem ends_of_machine {limits limits' : Limits} {ctx : Context} {caller : FrameId}
    (h : (limits.machine.eval e env ctx >>= limits'.machine.settle caller).Ends w result w') :
    Ends e env w result w' := by
  obtain ⟨n, upTo⟩ := Machine.exists_upTo limits.bounces limits.depth
  obtain ⟨k, upTo'⟩ := Machine.exists_upTo limits'.bounces limits'.depth
  exact ⟨n + k, h.of_le (upTo.eval (upTo'.settledBy caller) e env ctx)⟩

/-- Bounds that are enough for direct evaluation are enough in every place. -/
theorem Ends.machine (h : Ends e env w result w') (ctx : Context) (caller : FrameId) :
    ∃ limits : Limits,
      (limits.machine.eval e env ctx >>= limits.machine.settle caller).Ends w result w' := by
  obtain ⟨n, ends⟩ := h
  have covers : (Limits.mk n n).machine.Covers n := Machine.machine_covers (Nat.le_refl n)
  have settles : Machine.Settles ((Limits.mk n n).machine.settle caller) (direct n) :=
    ⟨fun _ => rfl, fun caller' fn args => covers.call caller' caller fn args⟩
  exact ⟨⟨n, n⟩, ends.of_le (covers.eval (Nat.le_refl n) settles e env ctx)⟩

end Direct

/-- Deferring calls never changes what an expression means, in any state and any frame. In a place
that does not hand calls back, a call never comes back, and evaluation ends with a value or an error
and in a state just when direct evaluation ends with them. In any place, so does evaluation followed
by the call that comes back, if one does, whoever makes it. Direct evaluation ends in one way only.
-/
theorem eval_ends_iff_direct (e : Value) (env : FrameId) (w : World) :
    (∀ ctx : Context, ctx.handsBack = false →
      (∀ (limits : Limits) fn args w',
        (limits.machine.eval e env ctx).runFrom w ≠ (.ok (.pending fn args), w')) ∧
      ∀ result w',
        (∃ limits : Limits,
          (limits.machine.eval e env ctx).Ends w (result.map Answer.value) w') ↔
        Direct.Ends e env w result w') ∧
    (∀ (ctx : Context) (caller : FrameId) result w',
      (∃ limits limits' : Limits,
        (limits.machine.eval e env ctx >>= limits'.machine.settle caller).Ends w result w') ↔
      Direct.Ends e env w result w') ∧
    ∀ result w' other w'', Direct.Ends e env w result w' → Direct.Ends e env w other w'' →
      result = other ∧ w' = w'' := by
  refine ⟨fun ctx made => ⟨fun limits fn args w' => ?_, fun result w' => ⟨?_, fun ends => ?_⟩⟩,
    fun ctx caller result w' => ⟨?_, fun ends => ?_⟩, fun _ _ _ _ => Direct.Ends.unique⟩
  · exact Machine.not_pending limits made e env w fn args w'
  · rintro ⟨limits, ends⟩
    have values := Machine.not_pending limits made e env w
    have settled : (limits.machine.eval e env ctx >>= limits.machine.settle env).Ends w result w' :=
      (Machine.ends_settle_iff (fun _ => rfl) values).2 ends
    exact Direct.ends_of_machine settled
  · obtain ⟨limits, ends⟩ := ends.machine ctx env
    have values := Machine.not_pending limits made e env w
    exact ⟨limits, (Machine.ends_settle_iff (fun _ => rfl) values).1 ends⟩
  · rintro ⟨limits, limits', ends⟩
    exact Direct.ends_of_machine ends
  · obtain ⟨limits, ends⟩ := ends.machine ctx caller
    exact ⟨limits, limits, ends⟩

/-- A call of the identity function, made where it stands or handed back and made afterwards. -/
theorem eval_ends_iff_direct_identity :
    let seven := Value.number (.int 7)
    let identity := Value.closure ⟨0, [⟨"x"⟩], 0, none⟩ (.ofList 0 [.symbol ⟨"x"⟩])
    let e := Value.ofList 1 [identity, seven]
    let before : World := ⟨⟨#[⟨none, []⟩]⟩, 3, #[]⟩
    let after : World := ⟨⟨#[⟨none, []⟩, ⟨some 0, [(⟨"x"⟩, seven)]⟩]⟩, 3, #[]⟩
    Context.functionBody.handsBack = true ∧ Context.topLevel.handsBack = false ∧
      ∃ limits : Limits,
        (limits.machine.eval e 0 Context.functionBody).runFrom before =
          (.ok (.pending identity [seven]), before) ∧
        (∃ limits' : Limits, (limits'.machine.eval e 0 Context.topLevel).Ends before
          (.ok (.value seven)) after) := by
  intro seven identity e before after
  have deferred : (((Limits.mk 3 2).machine.eval e 0 Context.functionBody) >>=
      (Limits.mk 3 2).machine.settle 0).Ends before (.ok seven) after := ⟨rfl, nofun⟩
  have transparent := eval_ends_iff_direct e 0 before
  have direct := (transparent.2.1 Context.functionBody 0 (.ok seven) after).1 ⟨_, _, deferred⟩
  exact ⟨rfl, rfl, ⟨3, 2⟩, rfl, ((transparent.1 Context.topLevel rfl).2 (.ok seven) after).2 direct⟩

end SmallLisp
