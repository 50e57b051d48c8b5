import SmallLisp.Proofs.Eval.SideBySide

/-!
# Evaluators that mirror each other

If the machines one level below mirror each other, all forms and calls do, and so do the machines
one level above. Main statements: an evaluator mirrors itself with more levels
(`mirrored_machine`), and so do single calls and chains of calls (`callOnce`, `runChain`).
-/

namespace SmallLisp

open Joint (Later Mirrors)

/-- Answers are alike if the values are that they are made of. -/
inductive Pairing.LikeAnswer {slack : Nat} (P : Pairing slack) : Answer → Answer → Prop
  | value {v v' : Value} (alike : P.Like v v') : LikeAnswer P (.value v) (.value v')
  | pending {fn fn' : Value} {args args' : List Value} (function : P.Like fn fn')
      (arguments : P.LikeAll args args') : LikeAnswer P (.pending fn args) (.pending fn' args')

namespace Machine

/-- The second machine has more levels than the first by the slack. Evaluating and calling with the
two, expressions and functions that are alike, come out alike. -/
structure Mirrored (slack : Nat) (m m' : Machine) : Prop where
  levels : m'.levels = m.levels + slack
  eval : ∀ {s : Joint slack} {e e' : Value} (env : FrameId) (ctx : Context), s.Good →
    s.pairing.Like e e' →
    s.Mirrors (m.eval e env ctx) (m'.eval e' env ctx) fun P => P.LikeAnswer
  call : ∀ {s : Joint slack} {fn fn' : Value} {args args' : List Value} (caller : FrameId), s.Good →
    s.pairing.Like fn fn' → s.pairing.LikeAll args args' →
    s.Mirrors (m.call caller fn args) (m'.call caller fn' args') fun P => P.Like

namespace Mirrored

variable {slack : Nat} {m m' : Machine} {s : Joint slack}

theorem settle (h : Mirrored slack m m') (good : s.Good) (env : FrameId) {answer answer' : Answer}
    (alike : s.pairing.LikeAnswer answer answer') :
    s.Mirrors (m.settle env answer) (m'.settle env answer') fun P => P.Like := by
  cases alike with
  | value alike => exact .pure good alike
  | pending function arguments => exact h.call env good function arguments

theorem value (h : Mirrored slack m m') (good : s.Good) {e e' : Value}
    (code : s.pairing.Like e e') (env : FrameId) (ctx : Context) :
    s.Mirrors (m.value e env ctx) (m'.value e' env ctx) fun P => P.Like := by
  apply (h.eval env ctx.inner good code).bind
  intro s' answer answer' later alike
  exact h.settle later.good env alike

theorem values (h : Mirrored slack m m') (good : s.Good) {es es' : List Value}
    (code : s.pairing.LikeAll es es') (env : FrameId) (ctx : Context) :
    s.Mirrors (m.values es env ctx) (m'.values es' env ctx) fun P => P.LikeAll := by
  unfold Machine.values
  induction es generalizing s es' with
  | nil =>
    cases code
    exact .pure good .nil
  | cons e es ih =>
    cases code with
    | @cons _ e' _ es' first others =>
      rw [List.mapM_cons, List.mapM_cons]
      apply (h.value good first env ctx).bind
      intro s' v v' later alike
      apply (ih later.good (later.likeAll others)).bind
      intro s'' vs vs' later' behind
      exact .pure later'.good (.cons (later'.like alike) behind)

theorem evalBlock (h : Mirrored slack m m') (good : s.Good) {forms forms' : List Value}
    (code : s.pairing.LikeAll forms forms') (env : FrameId) (ctx : Context) :
    s.Mirrors (m.evalBlock env ctx forms) (m'.evalBlock env ctx forms') fun P => P.LikeAnswer := by
  induction forms generalizing s forms' with
  | nil =>
    cases code
    exact .stop good _
  | cons form forms ih =>
    rcases code with _ | ⟨first, _ | ⟨second, others⟩⟩
    · exact h.eval env ctx good first
    · apply (h.value good first env ctx).bind
      intro s' _ _ later _
      exact ih later.good (later.likeAll (.cons second others))

theorem evalDefine (h : Mirrored slack m m') (good : s.Good) {operands operands' : Value}
    (code : s.pairing.Like operands operands') (env : FrameId) (ctx : Context) :
    s.Mirrors (m.evalDefine operands env ctx) (m'.evalDefine operands' env ctx)
      fun P => P.LikeAnswer := by
  apply Mirrors.part_bind good (code.first h.levels)
  intro target target' first
  apply Mirrors.part_bind good (first.nameAt h.levels .define)
  rintro x _ rfl
  apply Mirrors.part_bind good (code.second h.levels)
  intro e e' second
  apply (h.value good second env ctx).bind
  intro s' v v' later alike
  apply (Mirrors.define later.good env x alike).bind
  intro s'' _ _ later' _
  exact .pure later'.good (.value (later'.like alike))

theorem evalSet (h : Mirrored slack m m') (good : s.Good) {operands operands' : Value}
    (code : s.pairing.Like operands operands') (env : FrameId) (ctx : Context) :
    s.Mirrors (m.evalSet operands env ctx) (m'.evalSet operands' env ctx)
      fun P => P.LikeAnswer := by
  apply Mirrors.part_bind good (code.first h.levels)
  intro target target' first
  apply Mirrors.part_bind good (first.nameAt h.levels .set)
  rintro x _ rfl
  apply Mirrors.part_bind good (code.second h.levels)
  intro e e' second
  apply (h.value good second env ctx).bind
  intro s' v v' later alike
  apply (Mirrors.assign later.good env x alike).bind
  intro s'' _ _ later' _
  exact .pure later'.good (.value (later'.like alike))

/-- What is no cell is refused alike. -/
theorem refused (h : Mirrored slack m m') (good : s.Good) {α β : Type}
    (post : Pairing slack → α → β → Prop) {v v' : Value} (alike : s.pairing.Like v v')
    (e : String → Error) :
    s.Mirrors (EvalM.ofExcept (v.text m.levels) >>= fun shown => EvalM.fail (e shown))
      (EvalM.ofExcept (v'.text m'.levels) >>= fun shown => EvalM.fail (e shown)) post := by
  rw [h.levels]
  apply Mirrors.part_bind good (alike.text m.levels)
  rintro shown _ rfl
  exact .stop good _

theorem declareAll (h : Mirrored slack m m') (good : s.Good)
    {declarations declarations' : List Value}
    (code : s.pairing.LikeAll declarations declarations') (env : FrameId) (ctx : Context) :
    s.Mirrors (m.declareAll env ctx declarations) (m'.declareAll env ctx declarations')
      fun _ _ _ => True := by
  induction declarations generalizing s declarations' with
  | nil =>
    cases code
    exact .pure good trivial
  | cons declaration declarations ih =>
    cases code with
    | @cons _ declaration' _ declarations' alike others =>
      have refusal := h.refused good (fun _ (_ _ : Unit) => True) alike .notDeclaration
      cases alike with
      | cons pair target rest =>
        apply Mirrors.part_bind good (target.nameAt h.levels .letDeclaration)
        rintro x _ rfl
        apply Mirrors.part_bind good (rest.first h.levels)
        intro e e' first
        apply (h.value good first env ctx).bind
        intro s' v v' later held
        apply (Mirrors.define later.good env x held).bind
        intro s'' _ _ later' _
        have both := later.trans later'
        exact ih both.good (both.likeAll others)
      | _ => exact refusal

theorem evalLet (h : Mirrored slack m m') (good : s.Good) {operands operands' : Value}
    (code : s.pairing.Like operands operands') (env : FrameId) (ctx : Context) :
    s.Mirrors (m.evalLet operands env ctx) (m'.evalLet operands' env ctx)
      fun P => P.LikeAnswer := by
  apply Mirrors.part_bind good (code.first h.levels)
  intro declarations declarations' first
  rw [first.isList_eq]
  split
  · apply (Mirrors.newFrame good (some env)).bind
    rintro s' f _ later rfl
    apply (h.declareAll later.good (later.likeAll first.toList) f ctx).bind
    intro s'' _ _ later' _
    have both := later.trans later'
    apply Mirrors.part_bind both.good ((both.like code).others h.levels)
    intro body body' inside
    exact h.evalBlock both.good inside.toList f ctx
  · exact .stop good _

theorem evalIf (h : Mirrored slack m m') (good : s.Good) {operands operands' : Value}
    (code : s.pairing.Like operands operands') (env : FrameId) (ctx : Context) :
    s.Mirrors (m.evalIf operands env ctx) (m'.evalIf operands' env ctx) fun P => P.LikeAnswer := by
  apply Mirrors.part_bind good (code.first h.levels)
  intro test test' first
  apply Mirrors.part_bind good (code.others h.levels)
  intro rest rest' others
  apply Mirrors.part_bind good (others.first h.levels)
  intro thenForm thenForm' second
  apply Mirrors.part_bind good (others.others h.levels)
  intro elseForm elseForm' third
  apply (h.value good first env ctx).bind
  intro s' v v' later alike
  rw [alike.isTrue_eq]
  split
  · exact h.eval env ctx later.good (later.like second)
  · cases third with
    | cons pair form behind => exact h.eval env ctx later.good (later.like form)
    | _ => exact .pure later.good (.value .nil)

theorem evalCond (h : Mirrored slack m m') (good : s.Good) {clauses clauses' : List Value}
    (code : s.pairing.LikeAll clauses clauses') (env : FrameId) (ctx : Context) :
    s.Mirrors (m.evalCond env ctx clauses) (m'.evalCond env ctx clauses')
      fun P => P.LikeAnswer := by
  induction clauses generalizing s clauses' with
  | nil =>
    cases code
    exact .pure good (.value .nil)
  | cons clause clauses ih =>
    cases code with
    | @cons _ clause' _ clauses' alike others =>
      have refusal := h.refused good (fun P => P.LikeAnswer) alike .notClause
      cases alike with
      | cons pair test rest =>
        apply Mirrors.part_bind good (rest.first h.levels)
        intro thenForm thenForm' first
        apply (h.value good test env ctx).bind
        intro s' v v' later held
        rw [held.isTrue_eq]
        split
        · exact h.eval env ctx later.good (later.like first)
        · exact ih later.good (later.likeAll others)
      | _ => exact refusal

theorem holds (h : Mirrored slack m m') (good : s.Good) {e e' : Value}
    (code : s.pairing.Like e e') (env : FrameId) (ctx : Context) :
    s.Mirrors (m.holds e env ctx) (m'.holds e' env ctx) fun _ => Eq :=
  (h.value good code env ctx).bind fun _ _ _ later alike => .pure later.good alike.isTrue_eq

theorem evalAnd (h : Mirrored slack m m') (good : s.Good) {operands operands' : Value}
    (code : s.pairing.Like operands operands') (env : FrameId) (ctx : Context) :
    s.Mirrors (m.evalAnd operands env ctx) (m'.evalAnd operands' env ctx)
      fun P => P.LikeAnswer := by
  apply Mirrors.part_bind good (code.two h.levels)
  rintro ⟨a, b⟩ ⟨a', b'⟩ ⟨first, second⟩
  apply (h.holds good first env ctx).bind
  rintro s' decided _ later rfl
  cases decided with
  | true =>
    apply (h.holds later.good (later.like second) env ctx).bind
    rintro s'' r _ later' rfl
    exact .pure later'.good (.value (.atom _))
  | false => exact .pure later.good (.value (.atom _))

theorem evalOr (h : Mirrored slack m m') (good : s.Good) {operands operands' : Value}
    (code : s.pairing.Like operands operands') (env : FrameId) (ctx : Context) :
    s.Mirrors (m.evalOr operands env ctx) (m'.evalOr operands' env ctx) fun P => P.LikeAnswer := by
  apply Mirrors.part_bind good (code.two h.levels)
  rintro ⟨a, b⟩ ⟨a', b'⟩ ⟨first, second⟩
  apply (h.holds good first env ctx).bind
  rintro s' decided _ later rfl
  cases decided with
  | true => exact .pure later.good (.value (.atom _))
  | false =>
    apply (h.holds later.good (later.like second) env ctx).bind
    rintro s'' r _ later' rfl
    exact .pure later'.good (.value (.atom _))

theorem makeClosure (h : Mirrored slack m m') (good : s.Good) {params params' body body' : Value}
    (listed : s.pairing.Like params params') (inside : s.pairing.Like body body') (env : FrameId)
    (name : Option Symbol) :
    s.Mirrors (m.makeClosure params body env name) (m'.makeClosure params' body' env name)
      fun P => P.Like := by
  apply Mirrors.part_bind good (listed.parameters h.levels)
  rintro xs _ rfl
  exact .newClosure good xs env name inside

theorem evalLambda (h : Mirrored slack m m') (good : s.Good) {operands operands' : Value}
    (code : s.pairing.Like operands operands') (env : FrameId) :
    s.Mirrors (m.evalLambda operands env) (m'.evalLambda operands' env) fun P => P.LikeAnswer := by
  apply Mirrors.part_bind good (code.first h.levels)
  intro params params' first
  apply Mirrors.part_bind good (code.others h.levels)
  intro body body' others
  apply (h.makeClosure good first others env none).bind
  intro s' v v' later alike
  exact .pure later.good (.value alike)

theorem evalDefun (h : Mirrored slack m m') (good : s.Good) {operands operands' : Value}
    (code : s.pairing.Like operands operands') (env : FrameId) :
    s.Mirrors (m.evalDefun operands env) (m'.evalDefun operands' env) fun P => P.LikeAnswer := by
  apply Mirrors.part_bind good (code.first h.levels)
  intro target target' first
  apply Mirrors.part_bind good (first.nameAt h.levels .defun)
  rintro x _ rfl
  apply Mirrors.part_bind good (code.others h.levels)
  intro rest rest' others
  apply Mirrors.part_bind good (others.first h.levels)
  intro params params' second
  apply Mirrors.part_bind good (others.others h.levels)
  intro body body' inside
  apply (h.makeClosure good second inside env (some x)).bind
  intro s' v v' later alike
  apply (Mirrors.define later.good env x alike).bind
  intro s'' _ _ later' _
  exact .pure later'.good (.value .nil)

theorem evalForm (h : Mirrored slack m m') (good : s.Good) (form : SpecialForm)
    {operands operands' : Value} (code : s.pairing.Like operands operands') (env : FrameId)
    (ctx : Context) :
    s.Mirrors (m.evalForm form operands env ctx) (m'.evalForm form operands' env ctx)
      fun P => P.LikeAnswer := by
  cases form with
  | define => exact h.evalDefine good code env ctx
  | set => exact h.evalSet good code env ctx
  | defun => exact h.evalDefun good code env
  | lambda => exact h.evalLambda good code env
  | quote =>
    apply Mirrors.part_bind good (code.first h.levels)
    intro e e' first
    exact .pure good (.value first)
  | letBlock => exact h.evalLet good code env ctx
  | begin => exact h.evalBlock good code.toList env ctx
  | cond => exact h.evalCond good code.toList env ctx
  | ifElse => exact h.evalIf good code env ctx
  | and => exact h.evalAnd good code env ctx
  | or => exact h.evalOr good code env ctx

theorem evalCall (h : Mirrored slack m m') (good : s.Good) {operator operator' : Value}
    {operands operands' : Value} (function : s.pairing.Like operator operator')
    (code : s.pairing.Like operands operands') (env : FrameId) (ctx : Context) :
    s.Mirrors (m.evalCall operator operands env ctx) (m'.evalCall operator' operands' env ctx)
      fun P => P.LikeAnswer := by
  apply (h.value good function env ctx).bind
  intro s' fn fn' later alike
  apply (h.values later.good (later.likeAll code.toList) env ctx).bind
  intro s'' args args' later' arguments
  have called := later'.like alike
  unfold finishCall
  split
  · exact .pure later'.good (.pending called arguments)
  · apply (h.call env later'.good called arguments).bind
    intro s''' v v' later'' held
    exact .pure later''.good (.value held)

theorem evalExpr (h : Mirrored slack m m') (good : s.Good) {e e' : Value}
    (code : s.pairing.Like e e') (env : FrameId) (ctx : Context) :
    s.Mirrors (m.evalExpr e env ctx) (m'.evalExpr e' env ctx) fun P => P.LikeAnswer := by
  have itself : s.Mirrors (pure (.value e)) (pure (.value e')) fun P => P.LikeAnswer :=
    .pure good (.value code)
  cases code with
  | atom a =>
    cases a with
    | symbol x =>
      apply (Mirrors.lookup good env x).bind
      intro s' v v' later held
      exact .pure later.good (.value held)
    | _ => exact itself
  | @cons i i' operator operator' operands operands' pair function others =>
    have same : formOf? operator = formOf? operator' := by
      cases function <;> rfl
    simp only [Machine.evalExpr, same]
    cases formOf? operator' with
    | some form => exact h.evalForm good form others env ctx
    | none => exact h.evalCall good function others env ctx
  | _ => exact itself

/-- What is computed without the state. -/
theorem result (good : s.Good) {x y : Except Error Value}
    (h : Except.Agree slack s.pairing.Like x y) :
    s.Mirrors (EvalM.ofExcept x) (EvalM.ofExcept y) fun P => P.Like := by
  rw [← bind_pure (EvalM.ofExcept x), ← bind_pure (EvalM.ofExcept y)]
  exact Mirrors.part_bind good h fun v v' alike => .pure good alike

/-- What is computed from the same numbers is the same. -/
theorem arithmetic (h : Mirrored slack m m') (good : s.Good) {args args' : List Value}
    (alike : s.pairing.LikeAll args args') (op : Builtin) (f : List Number → Except Error Number) :
    s.Mirrors (EvalM.ofExcept do return .number (← f (← op.numbers m.levels args)))
      (EvalM.ofExcept do return .number (← f (← op.numbers m'.levels args'))) fun P => P.Like := by
  rw [h.levels]
  refine result good ((alike.numbers op m.levels).bind fun ns _ same => ?_)
  subst same
  cases f ns with
  | error e => exact .error e
  | ok n => exact .ok (.atom _)

theorem runBuiltin (h : Mirrored slack m m') (good : s.Good) (caller : FrameId) (op : Builtin)
    {args args' : List Value} (alike : s.pairing.LikeAll args args') :
    s.Mirrors (m.runBuiltin caller op args) (m'.runBuiltin caller op args') fun P => P.Like := by
  cases op with
  | add => exact h.arithmetic good alike .add _
  | sub => exact h.arithmetic good alike .sub _
  | mul => exact h.arithmetic good alike .mul _
  | div => exact h.arithmetic good alike .div _
  | mod =>
    unfold Machine.runBuiltin
    rw [h.levels]
    exact result good ((alike.remainder m.levels).bind fun _ _ same => same ▸ .ok (.atom _))
  | equals =>
    unfold Machine.runBuiltin
    rw [h.levels]
    exact result good ((alike.equalAll m.levels).bind fun _ _ same => same ▸ .ok (.atom _))
  | less | lessEq | greater | greaterEq =>
    unfold Machine.runBuiltin
    rw [h.levels]
    exact result good (alike.compareAll _ m.levels _)
  | not =>
    refine result good ((alike.one .not).bind fun a a' one => ?_)
    rw [one.isTrue_eq]
    exact .ok (.atom _)
  | null =>
    refine result good ((alike.one .null).bind fun a a' one => ?_)
    have same : (a == Value.nil) = (a' == Value.nil) := by
      cases one <;> rfl
    rw [same]
    exact .ok (.atom _)
  | length =>
    unfold Machine.runBuiltin
    rw [h.levels]
    refine result good ((alike.one .length).bind fun a a' one => ?_)
    refine (one.listArgument .length m.levels).bind fun list list' same => ?_
    rw [same.toList.length_eq]
    exact .ok (.atom _)
  | car =>
    unfold Machine.runBuiltin
    rw [h.levels]
    exact result good ((alike.one .car).bind fun _ _ one => one.part .head m.levels)
  | cdr =>
    unfold Machine.runBuiltin
    rw [h.levels]
    exact result good ((alike.one .cdr).bind fun _ _ one => one.part .rest m.levels)
  | cons =>
    unfold Machine.runBuiltin
    rw [h.levels]
    apply Mirrors.part_bind good (alike.consArguments m.levels)
    rintro ⟨head, rest⟩ ⟨head', rest'⟩ ⟨first, others⟩
    exact .newCell good first others
  | list => exact .newList good alike
  | apply =>
    unfold Machine.runBuiltin
    rw [h.levels]
    apply Mirrors.part_bind good (alike.applyArguments m.levels)
    rintro ⟨fn, items⟩ ⟨fn', items'⟩ ⟨function, arguments⟩
    exact h.call caller good function arguments
  | print =>
    unfold Machine.runBuiltin
    rw [h.levels]
    apply Mirrors.part_bind good (alike.line m.levels)
    rintro text _ rfl
    apply (Mirrors.emit good text).bind
    intro s' _ _ later _
    exact .pure later.good .nil

theorem bindParameters (good : s.Good) (f : FrameId) (tooFew : Error) (params : List Symbol)
    {args args' : List Value} (alike : s.pairing.LikeAll args args') :
    s.Mirrors (Machine.bindParameters f tooFew params args)
      (Machine.bindParameters f tooFew params args') fun _ _ _ => True := by
  induction params generalizing s args args' with
  | nil => exact .pure good trivial
  | cons x params ih =>
    rw [Machine.bindParameters.eq_def, Machine.bindParameters.eq_def]
    dsimp only
    split
    · apply (Mirrors.newList good alike).bind
      intro s' list list' later held
      exact .define later.good f x held
    · cases alike with
      | nil => exact .stop good _
      | cons first others =>
        apply (Mirrors.define good f x first).bind
        intro s' _ _ later _
        exact ih later.good (later.likeAll others)

theorem openFrame (good : s.Good) {header header' : ClosureHeader}
    (params : header.params = header'.params) (env : header.env = header'.env)
    (name : header.name = header'.name) {args args' : List Value}
    (alike : s.pairing.LikeAll args args') :
    s.Mirrors (Machine.openFrame header args) (Machine.openFrame header' args') fun _ => Eq := by
  unfold Machine.openFrame
  rw [params, env, name, alike.length_eq]
  apply (Mirrors.newFrame good (some header'.env)).bind
  rintro s' f _ later rfl
  apply (bindParameters later.good f _ header'.params (later.likeAll alike)).bind
  intro s'' _ _ later' _
  exact .pure later'.good rfl

/-- The bodies of two functions, evaluated for one call of each. -/
theorem runBody (h : Mirrored slack m m') (good : s.Good) {header header' : ClosureHeader}
    (params : header.params = header'.params) (env : header.env = header'.env)
    (name : header.name = header'.name) {body body' : Value} (inside : s.pairing.Like body body')
    {args args' : List Value} (alike : s.pairing.LikeAll args args') :
    s.Mirrors (do m.evalBlock (← Machine.openFrame header args) Context.functionBody body.toList)
      (do m'.evalBlock (← Machine.openFrame header' args') Context.functionBody body'.toList)
      fun P => P.LikeAnswer := by
  apply (openFrame good params env name alike).bind
  rintro s' f _ later rfl
  exact h.evalBlock later.good (later.likeAll inside.toList) f _

theorem callOnce (h : Mirrored slack m m') (good : s.Good) (caller : FrameId) {fn fn' : Value}
    {args args' : List Value} (function : s.pairing.Like fn fn')
    (alike : s.pairing.LikeAll args args') :
    s.Mirrors (m.callOnce caller fn args) (m'.callOnce caller fn' args')
      fun P => P.LikeAnswer := by
  have refusal := h.refused good (fun P => P.LikeAnswer) function .notCallable
  cases function with
  | closure pair params env name inside => exact h.runBody good params env name inside alike
  | builtin op =>
    apply (h.runBuiltin good caller op alike).bind
    intro s' v v' later held
    exact .pure later.good (.value held)
  | _ => exact refusal

theorem runChain (h : Mirrored slack m m') (good : s.Good) (caller : FrameId) (bounces : Nat)
    {fn fn' : Value} {args args' : List Value} (function : s.pairing.Like fn fn')
    (alike : s.pairing.LikeAll args args') :
    s.Mirrors (m.runChain caller bounces fn args) (m'.runChain caller bounces fn' args')
      fun P => P.Like := by
  induction bounces generalizing s fn fn' args args' with
  | zero => exact .stop good _
  | succ bounces ih =>
    apply (h.callOnce good caller function alike).bind
    intro s' answer answer' later held
    cases held with
    | value held => exact .pure later.good held
    | pending function arguments => exact ih later.good function arguments

/-- Chains of calls the first of which mirror each other. -/
theorem runChain_succ (h : Mirrored slack m m') (caller : FrameId) (bounces : Nat) {fn fn' : Value}
    {args args' : List Value}
    (first : s.Mirrors (m.callOnce caller fn args) (m'.callOnce caller fn' args')
      fun P => P.LikeAnswer) :
    s.Mirrors (m.runChain caller (bounces + 1) fn args) (m'.runChain caller (bounces + 1) fn' args')
      fun P => P.Like := by
  apply first.bind
  intro s' answer answer' later held
  cases held with
  | value held => exact .pure later.good held
  | pending function arguments => exact h.runChain later.good caller bounces function arguments

theorem next (h : Mirrored slack m m') (bounces : Nat) :
    Mirrored slack (m.next bounces) (m'.next bounces) where
  levels := by rw [Machine.next, Machine.next, h.levels, Nat.succ_add]
  eval env ctx good code := h.evalExpr good code env ctx
  call caller good function alike := h.runChain good caller bounces function alike

end Mirrored

end Machine

/-- An evaluator with more levels mirrors the one with fewer. -/
theorem mirrored_machine (slack bounces depth : Nat) :
    (machine bounces depth).Mirrored slack (machine bounces (depth + slack)) := by
  induction depth with
  | succ depth ih =>
    rw [Nat.succ_add]
    exact ih.next bounces
  | zero =>
    refine ⟨by rw [levels_machine, levels_machine], fun env ctx good _ => ?_,
      fun caller good _ _ => ?_⟩
    · cases slack with
      | zero => exact .stop good _
      | succ slack => exact .inl ⟨Nat.succ_pos slack, _, _, .inl rfl, rfl⟩
    · cases slack with
      | zero => exact .stop good _
      | succ slack => exact .inl ⟨Nat.succ_pos slack, _, _, .inl rfl, rfl⟩

end SmallLisp
