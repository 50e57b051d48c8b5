import SmallLisp.Proofs.Eval.CallOrder
import SmallLisp.Proofs.Eval.DerivedForms

/-!
# Blocks in parts

A block that is cut in two does what its first part does, in a place whose value is still needed,
and then what its second part does. So a `begin` inside a block can be replaced by its forms,
however deep the block lies in others (`Regrouped`). Main statements: a block is evaluated part by
part (`evalBlock_append`), rows of forms that differ in their grouping do the same
(`Regrouped.sameRow`), and both facts together (`blocks_compose`).
-/

namespace SmallLisp

open Attains (Grows)
open EvalM (boundOrder)
open Machine (formOf?)

variable {env : FrameId} {ctx : Context}

namespace Coincide

variable {α : Type} {x y : Machine → EvalM α}

/-- Runs that are equal for every evaluator. -/
theorem of_eq (grows : Grows x) (grows' : Grows y)
    (same : ∀ limits : Limits, x limits.machine = y limits.machine) : Coincide x y where
  grows := grows
  grows' := grows'
  attains_iff w result w' := by
    simp only [Attains, same]

/-- What is found out without evaluating anything. -/
theorem parts {part : Machine → Except Error α} (byLevels : Machine.ByLevels part) :
    Coincide (fun m => EvalM.ofExcept (part m)) (fun m => EvalM.ofExcept (part m)) :=
  refl fun _ _ within => within.related.parts byLevels

/-- A call is made once, and then the call is made that it hands back. -/
theorem call (caller : FrameId) (fn : Value) (args : List Value) :
    Coincide (·.call caller fn args) fun m =>
      m.callOnce caller fn args >>= fun answer => m.settle caller answer where
  grows _ _ within := within.call caller fn args
  grows' _ _ within := boundOrder.bind (Attains.grows_callOnce caller fn args within)
    fun answer => Attains.grows_settle caller answer within
  attains_iff w result w' := by
    constructor
    · rintro ⟨⟨depth, bounces⟩, ends⟩
      have wider := machine_within (Nat.le_succ bounces) (Nat.le_succ depth)
      have deeper := machine_within (Nat.le_refl (bounces + 1)) (Nat.le_succ depth)
      refine ⟨⟨depth + 1, bounces + 1⟩, (ends.of_le (wider.call caller fn args)).of_le ?_⟩
      refine EvalM.bind_le_bind (deeper.callOnce caller fn args) fun answer => ?_
      cases answer with
      | value v => exact le_refl _
      | pending fn args =>
        exact (machine_within (Nat.le_refl _) (Nat.le_refl depth)).runChain caller
          (Nat.le_succ bounces) fn args
    · rintro ⟨⟨depth, bounces⟩, ends⟩
      have longer := machine_within (Nat.le_succ bounces) (Nat.le_refl depth)
      have deeper := machine_within (Nat.le_refl bounces) (Nat.le_succ depth)
      refine ⟨⟨depth + 1, bounces + 1⟩, ends.of_le ?_⟩
      refine EvalM.bind_le_bind (longer.callOnce caller fn args) fun answer => ?_
      cases answer with
      | value v => exact le_refl _
      | pending fn args =>
        exact (deeper.call caller fn args).trans
          (longer.runChain caller (Nat.le_refl bounces) fn args)

end Coincide

namespace Value.SameAs

variable {e e' a a' : Value}

theorem coincide (h : e.SameAs e') (env : FrameId) (ctx : Context) :
    Coincide (·.eval e env ctx) (·.eval e' env ctx) :=
  ⟨Attains.grows_eval e env ctx, Attains.grows_eval e' env ctx, h env ctx⟩

theorem coincide_value (h : e.SameAs e') (env : FrameId) (ctx : Context) :
    Coincide (·.value e env ctx) (·.value e' env ctx) :=
  (h.coincide env ctx.inner).bind fun answer => .refl (Attains.grows_settle env answer)

end Value.SameAs

/-- A block does what its first part does, in a place whose value is still needed, and then what its
second part does. -/
theorem evalBlock_append (limits : Limits) {xs ys : List Value} (first : xs ≠ [])
    (second : ys ≠ []) (env : FrameId) (ctx : Context) :
    limits.machine.evalBlock env ctx (xs ++ ys) =
      limits.machine.evalBlock env ctx.inner xs >>= fun _ =>
        limits.machine.evalBlock env ctx ys := by
  induction xs with
  | nil => exact absurd rfl first
  | cons x xs ih =>
    rw [List.cons_append, evalBlock_cons (List.append_ne_nil_of_right_ne_nil xs second)]
    cases xs with
    | nil =>
      -- the last form of the first part gives a value, which is dropped either way
      rw [List.nil_append, Machine.value, bind_assoc]
      exact Machine.givesValues_machine limits.bounces limits.depth ctx.handsBack_inner x env
        fun _ => rfl
    | cons x' xs =>
      rw [ih (List.cons_ne_nil x' xs), evalBlock_cons (List.cons_ne_nil x' xs), bind_assoc]
      rfl

theorem coincide_append {xs ys : List Value} (first : xs ≠ []) (second : ys ≠ []) :
    Coincide (·.evalBlock env ctx (xs ++ ys))
      fun m => m.evalBlock env ctx.inner xs >>= fun _ => m.evalBlock env ctx ys :=
  .of_eq (Attains.grows_evalBlock env ctx _)
    (fun _ _ within => boundOrder.bind (Attains.grows_evalBlock env ctx.inner xs within)
      fun _ => Attains.grows_evalBlock env ctx ys within)
    fun limits => evalBlock_append limits first second env ctx

/-- The rows of forms do the same as blocks, in whatever place. -/
structure SameRow (xs ys : List Value) : Prop where
  empty_iff : xs = [] ↔ ys = []
  block : ∀ env ctx, Coincide (·.evalBlock env ctx xs) (·.evalBlock env ctx ys)

namespace SameRow

variable {xs xs' ys ys' zs : List Value} {e e' : Value}

theorem refl (xs : List Value) : SameRow xs xs :=
  ⟨.rfl, fun env ctx => .refl (Attains.grows_evalBlock env ctx xs)⟩

theorem symm (h : SameRow xs ys) : SameRow ys xs :=
  ⟨h.empty_iff.symm, fun env ctx => (h.block env ctx).symm⟩

theorem trans (h : SameRow xs ys) (h' : SameRow ys zs) : SameRow xs zs :=
  ⟨h.empty_iff.trans h'.empty_iff, fun env ctx => (h.block env ctx).trans (h'.block env ctx)⟩

theorem sameAs (h : SameRow [e] [e']) : e.SameAs e' := fun env ctx => (h.block env ctx).attains_iff

theorem of_sameAs (h : e.SameAs e') : SameRow [e] [e'] :=
  ⟨by simp, fun env ctx => h.coincide env ctx⟩

theorem append (h : SameRow xs xs') (h' : SameRow ys ys') : SameRow (xs ++ ys) (xs' ++ ys') := by
  rcases eq_or_ne xs [] with rfl | first
  · obtain rfl := h.empty_iff.1 rfl
    exact h'
  rcases eq_or_ne ys [] with rfl | second
  · obtain rfl := h'.empty_iff.1 rfl
    rwa [List.append_nil, List.append_nil]
  have first' := mt h.empty_iff.2 first
  have second' := mt h'.empty_iff.2 second
  refine ⟨by simp [first, first'], fun env ctx => ?_⟩
  refine (coincide_append first second).trans (.trans ?_ (coincide_append first' second').symm)
  exact (h.block env ctx.inner).bind fun _ => h'.block env ctx

/-- A `begin` does what its forms do. -/
theorem splice {block : Value} (listed : block.Lists (SpecialForm.begin.operator :: xs))
    (nonempty : xs ≠ []) : SameRow [block] xs := by
  refine ⟨by simp [nonempty], fun env ctx => ?_⟩
  rcases listed with _ | ⟨i, _, listed⟩
  exact coincide_form fun m => by rw [Machine.evalForm, listed.toList_eq]

end SameRow

/-! ### Forms that differ in one part -/

/-- The special form has an operand between these operands that it evaluates as it stands. -/
inductive SpecialForm.Evaluates : SpecialForm → List Value → List Value → Prop
  | test (yes : Value) (more : List Value) : Evaluates .ifElse [] (yes :: more)
  | thenBranch (test : Value) (more : List Value) : Evaluates .ifElse [test] more
  | elseBranch (test yes : Value) (more : List Value) : Evaluates .ifElse [test, yes] more
  | andFirst (b : Value) (more : List Value) : Evaluates .and [] (b :: more)
  | andSecond (a : Value) (more : List Value) : Evaluates .and [a] more
  | orFirst (b : Value) (more : List Value) : Evaluates .or [] (b :: more)
  | orSecond (a : Value) (more : List Value) : Evaluates .or [a] more
  | defined (name : Value) (more : List Value) : Evaluates .define [name] more
  | assigned (name : Value) (more : List Value) : Evaluates .set [name] more

section

variable {e e' part part' test test' yes yes' : Value} {before after more more' : List Value}

/-- The expressions do the same one by one. -/
abbrev SameParts : List Value → List Value → Prop := List.Forall₂ Value.SameAs

theorem sameParts_refl (es : List Value) : SameParts es es :=
  List.forall₂_same.2 fun _ _ _ _ _ _ _ => .rfl

theorem sameParts_part (same : part.SameAs part') (before after : List Value) :
    SameParts (before ++ part :: after) (before ++ part' :: after) :=
  List.rel_append (sameParts_refl before) (.cons same (sameParts_refl after))

theorem sameAs_if (h : e.Lists (SpecialForm.ifElse.operator :: test :: yes :: more))
    (h' : e'.Lists (SpecialForm.ifElse.operator :: test' :: yes' :: more'))
    (sameTest : test.SameAs test') (sameYes : yes.SameAs yes') (sameMore : SameParts more more') :
    e.SameAs e' := by
  intro env ctx
  cases sameMore with
  | nil =>
    refine ((coincide_if_short h).trans (.trans ?_ (coincide_if_short h').symm)).attains_iff
    exact (sameTest.coincide_value env ctx).bind fun v =>
      .test (sameYes.coincide env ctx) (.const _) v.isTrue
  | cons sameNo _ =>
    refine ((coincide_if h).trans (.trans ?_ (coincide_if h').symm)).attains_iff
    exact (sameTest.coincide_value env ctx).bind fun v =>
      .test (sameYes.coincide env ctx) (sameNo.coincide env ctx) v.isTrue

theorem coincide_isTrue (same : part.SameAs part') :
    Coincide (fun m => m.value part env ctx >>= fun v => pure (Answer.value (.bool v.isTrue)))
      fun m => m.value part' env ctx >>= fun v => pure (.value (.bool v.isTrue)) :=
  (same.coincide_value env ctx).bind fun _ => .const _

theorem sameAs_and_parts (h : e.Lists (SpecialForm.and.operator :: test :: yes :: more))
    (h' : e'.Lists (SpecialForm.and.operator :: test' :: yes' :: more'))
    (sameTest : test.SameAs test') (sameYes : yes.SameAs yes') : e.SameAs e' := by
  intro env ctx
  refine ((coincide_and h).trans (.trans ?_ (coincide_and h').symm)).attains_iff
  exact (sameTest.coincide_value env ctx).bind fun v =>
    .test (coincide_isTrue sameYes) (.const _) v.isTrue

theorem sameAs_or_parts (h : e.Lists (SpecialForm.or.operator :: test :: yes :: more))
    (h' : e'.Lists (SpecialForm.or.operator :: test' :: yes' :: more'))
    (sameTest : test.SameAs test') (sameYes : yes.SameAs yes') : e.SameAs e' := by
  intro env ctx
  refine ((coincide_or h).trans (.trans ?_ (coincide_or h').symm)).attains_iff
  exact (sameTest.coincide_value env ctx).bind fun v =>
    .test (.const _) (coincide_isTrue sameYes) v.isTrue

theorem coincide_define {name : Value}
    (h : e.Lists (SpecialForm.define.operator :: name :: part :: more)) :
    Coincide (·.eval e env ctx) fun m => EvalM.ofExcept (m.nameAt .define name) >>= fun x =>
      m.value part env ctx >>= fun v => EvalM.define env x v >>= fun _ =>
        pure (Answer.value v) := by
  rcases h with _ | ⟨i, _, _ | ⟨j, _, _ | ⟨k, _, _⟩⟩⟩
  exact coincide_form fun _ => rfl

theorem coincide_set {name : Value}
    (h : e.Lists (SpecialForm.set.operator :: name :: part :: more)) :
    Coincide (·.eval e env ctx) fun m => EvalM.ofExcept (m.nameAt .set name) >>= fun x =>
      m.value part env ctx >>= fun v => EvalM.assign env x v >>= fun _ =>
        pure (Answer.value v) := by
  rcases h with _ | ⟨i, _, _ | ⟨j, _, _ | ⟨k, _, _⟩⟩⟩
  exact coincide_form fun _ => rfl

theorem sameAs_define {name : Value}
    (h : e.Lists (SpecialForm.define.operator :: name :: part :: more))
    (h' : e'.Lists (SpecialForm.define.operator :: name :: part' :: more'))
    (same : part.SameAs part') : e.SameAs e' := by
  intro env ctx
  refine ((coincide_define h).trans (.trans ?_ (coincide_define h').symm)).attains_iff
  exact (Coincide.parts (.nameAt _ name)).bind fun x =>
    (same.coincide_value env ctx).bind fun v => .const _

theorem sameAs_set {name : Value}
    (h : e.Lists (SpecialForm.set.operator :: name :: part :: more))
    (h' : e'.Lists (SpecialForm.set.operator :: name :: part' :: more'))
    (same : part.SameAs part') : e.SameAs e' := by
  intro env ctx
  refine ((coincide_set h).trans (.trans ?_ (coincide_set h').symm)).attains_iff
  exact (Coincide.parts (.nameAt _ name)).bind fun x =>
    (same.coincide_value env ctx).bind fun v => .const _

theorem sameAs_operand {form : SpecialForm} (place : form.Evaluates before after)
    (h : e.Lists (form.operator :: (before ++ part :: after)))
    (h' : e'.Lists (form.operator :: (before ++ part' :: after))) (same : part.SameAs part') :
    e.SameAs e' := by
  have unchanged (e : Value) : e.SameAs e := fun _ _ _ _ _ => .rfl
  cases place with
  | test yes more => exact sameAs_if h h' same (unchanged yes) (sameParts_refl more)
  | thenBranch test => exact sameAs_if h h' (unchanged test) same (sameParts_refl after)
  | elseBranch test yes =>
    exact sameAs_if h h' (unchanged test) (unchanged yes) (.cons same (sameParts_refl after))
  | andFirst b more => exact sameAs_and_parts h h' same (unchanged b)
  | andSecond a => exact sameAs_and_parts h h' (unchanged a) same
  | orFirst b more => exact sameAs_or_parts h h' same (unchanged b)
  | orSecond a => exact sameAs_or_parts h h' (unchanged a) same
  | defined name => exact sameAs_define h h' same
  | assigned name => exact sameAs_set h h' same

/-- Clauses that differ in one of them, in the expressions that it tests and chooses. -/
theorem coincide_clause {clause clause' : Value} (h : clause.Lists (test :: yes :: more))
    (h' : clause'.Lists (test' :: yes' :: more')) (sameTest : test.SameAs test')
    (sameYes : yes.SameAs yes') (before after : List Value) :
    Coincide (·.evalCond env ctx (before ++ clause :: after))
      (·.evalCond env ctx (before ++ clause' :: after)) := by
  induction before with
  | nil =>
    rcases h with _ | ⟨i, _, _ | ⟨j, _, _⟩⟩
    rcases h' with _ | ⟨k, _, _ | ⟨l, _, _⟩⟩
    exact (sameTest.coincide_value env ctx).bind fun v =>
      .test (sameYes.coincide env ctx) (.refl (Attains.grows_evalCond env ctx after)) v.isTrue
  | cons other before ih =>
    cases other with
    | cons id test rest =>
      exact (Coincide.parts (.first rest)).bind fun chosen =>
        (Coincide.value test env ctx).bind fun v => .test (.eval chosen env ctx) ih v.isTrue
    | _ => exact (Coincide.parts (.text _)).bind fun _ => .const _

theorem sameAs_clause {clause clause' : Value}
    (h : e.Lists (SpecialForm.cond.operator :: (before ++ clause :: after)))
    (h' : e'.Lists (SpecialForm.cond.operator :: (before ++ clause' :: after)))
    (written : clause.Lists (test :: yes :: more))
    (written' : clause'.Lists (test' :: yes' :: more'))
    (sameTest : test.SameAs test') (sameYes : yes.SameAs yes') : e.SameAs e' := by
  intro env ctx
  rcases h with _ | ⟨i, _, listed⟩
  rcases h' with _ | ⟨j, _, listed'⟩
  refine ((coincide_cond listed.toList_eq i).trans (.trans ?_
    (coincide_cond listed'.toList_eq j).symm)).attains_iff
  exact coincide_clause written written' sameTest sameYes before after

/-- Declarations that differ in one of them, in the expression for its value. -/
theorem coincide_declaration {declaration declaration' name : Value}
    (h : declaration.Lists (name :: part :: more))
    (h' : declaration'.Lists (name :: part' :: more')) (same : part.SameAs part')
    (before after : List Value) :
    Coincide (·.declareAll env ctx (before ++ declaration :: after))
      (·.declareAll env ctx (before ++ declaration' :: after)) := by
  induction before with
  | nil =>
    rcases h with _ | ⟨i, _, _ | ⟨j, _, _⟩⟩
    rcases h' with _ | ⟨k, _, _ | ⟨l, _, _⟩⟩
    exact (Coincide.parts (.nameAt _ name)).bind fun x =>
      (same.coincide_value env ctx).bind fun v => (Coincide.const _).bind fun _ =>
        .refl (Attains.grows_declareAll env ctx after)
  | cons other before ih =>
    cases other with
    | cons id target rest =>
      exact (Coincide.parts (.nameAt _ target)).bind fun x =>
        (Coincide.parts (.first rest)).bind fun e => (Coincide.value e env ctx).bind fun v =>
          (Coincide.const _).bind fun _ => ih
    | _ => exact (Coincide.parts (.text _)).bind fun _ => .const _

theorem sameAs_declaration {list list' declaration declaration' name : Value}
    {body : List Value}
    (h : e.Lists (SpecialForm.letBlock.operator :: list :: body))
    (h' : e'.Lists (SpecialForm.letBlock.operator :: list' :: body))
    (listed : list.Lists (before ++ declaration :: after))
    (listed' : list'.Lists (before ++ declaration' :: after))
    (written : declaration.Lists (name :: part :: more))
    (written' : declaration'.Lists (name :: part' :: more')) (same : part.SameAs part') :
    e.SameAs e' := by
  intro env ctx
  refine ((coincide_let h listed).trans (.trans ?_ (coincide_let h' listed').symm)).attains_iff
  exact (Coincide.const _).bind fun frame =>
    (coincide_declaration written written' same before after).bind fun _ =>
      .refl (Attains.grows_evalBlock frame ctx body)

theorem sameAs_body {list list' : Value} {declarations body body' : List Value}
    (h : e.Lists (SpecialForm.letBlock.operator :: list :: body))
    (h' : e'.Lists (SpecialForm.letBlock.operator :: list' :: body'))
    (listed : list.Lists declarations) (listed' : list'.Lists declarations)
    (same : SameRow body body') : e.SameAs e' := by
  intro env ctx
  refine ((coincide_let h listed).trans (.trans ?_ (coincide_let h' listed').symm)).attains_iff
  exact (Coincide.const _).bind fun frame =>
    (Coincide.refl (Attains.grows_declareAll frame ctx declarations)).bind fun _ =>
      same.block frame ctx

theorem sameAs_begin {forms forms' : List Value}
    (h : e.Lists (SpecialForm.begin.operator :: forms))
    (h' : e'.Lists (SpecialForm.begin.operator :: forms')) (same : SameRow forms forms') :
    e.SameAs e' := by
  intro env ctx
  rcases h with _ | ⟨i, _, listed⟩
  rcases h' with _ | ⟨j, _, listed'⟩
  refine Coincide.attains_iff (.trans (coincide_form fun m => ?_) ((same.block env ctx).trans
    (coincide_form fun m => ?_).symm))
  · rw [Machine.evalForm, listed.toList_eq]
  · rw [Machine.evalForm, listed'.toList_eq]

theorem coincide_values {es es' : List Value} (same : SameParts es es') :
    Coincide (·.values es env ctx) (·.values es' env ctx) := by
  induction same with
  | nil => exact .const _
  | cons first _ ih =>
    simp only [Machine.values_cons]
    exact (first.coincide_value env ctx).bind fun v => ih.bind fun _ => .const _

theorem sameAs_call {f f' : Value} {args args' : List Value} (unmarked : formOf? f = none)
    (unmarked' : formOf? f' = none) (h : e.Lists (f :: args)) (h' : e'.Lists (f' :: args'))
    (same : SameParts (f :: args) (f' :: args')) : e.SameAs e' := by
  intro env ctx
  rcases h with _ | ⟨i, _, listed⟩
  rcases h' with _ | ⟨j, _, listed'⟩
  refine Coincide.attains_iff (.trans
    (coincide_of_rule fun m => m.evalExpr_call i _ unmarked env ctx) (.trans ?_
      (coincide_of_rule fun m => m.evalExpr_call j _ unmarked' env ctx).symm))
  rw [listed.toList_eq, listed'.toList_eq]
  refine (coincide_values same).bind fun vs => .refl fun m m' within => ?_
  have related := (within.related.corresponds ctx).finish env (vs.headD .nil) vs.tail
  rwa [bind_pure, bind_pure] at related

end

/-! ### Blocks inside blocks -/

/-- The rows of forms are the same but for the grouping of their blocks: where one has a `begin`
with some forms, at whatever depth, the other may have the forms themselves. -/
inductive Regrouped : List Value → List Value → Prop
  | refl (xs : List Value) : Regrouped xs xs
  | symm {xs ys : List Value} : Regrouped xs ys → Regrouped ys xs
  | trans {xs ys zs : List Value} : Regrouped xs ys → Regrouped ys zs → Regrouped xs zs
  | append {xs xs' ys ys' : List Value} : Regrouped xs xs' → Regrouped ys ys' →
    Regrouped (xs ++ ys) (xs' ++ ys')
  | splice {block : Value} {forms : List Value} :
    block.Lists (SpecialForm.begin.operator :: forms) → forms ≠ [] → Regrouped [block] forms
  | begin {e e' : Value} {forms forms' : List Value} :
    e.Lists (SpecialForm.begin.operator :: forms) →
    e'.Lists (SpecialForm.begin.operator :: forms') → Regrouped forms forms' → Regrouped [e] [e']
  | body {e e' list list' : Value} {declarations forms forms' : List Value} :
    e.Lists (SpecialForm.letBlock.operator :: list :: forms) →
    e'.Lists (SpecialForm.letBlock.operator :: list' :: forms') → list.Lists declarations →
    list'.Lists declarations → Regrouped forms forms' → Regrouped [e] [e']
  | declaration {e e' list list' declaration declaration' name part part' : Value}
      {before after more forms : List Value} :
    e.Lists (SpecialForm.letBlock.operator :: list :: forms) →
    e'.Lists (SpecialForm.letBlock.operator :: list' :: forms) →
    list.Lists (before ++ declaration :: after) → list'.Lists (before ++ declaration' :: after) →
    declaration.Lists (name :: part :: more) → declaration'.Lists (name :: part' :: more) →
    Regrouped [part] [part'] → Regrouped [e] [e']
  | clause {e e' clause clause' test test' yes yes' : Value} {before after more : List Value} :
    e.Lists (SpecialForm.cond.operator :: (before ++ clause :: after)) →
    e'.Lists (SpecialForm.cond.operator :: (before ++ clause' :: after)) →
    clause.Lists (test :: yes :: more) → clause'.Lists (test' :: yes' :: more) →
    Regrouped [test] [test'] → Regrouped [yes] [yes'] → Regrouped [e] [e']
  | operand {form : SpecialForm} {e e' part part' : Value} {before after : List Value} :
    form.Evaluates before after → e.Lists (form.operator :: (before ++ part :: after)) →
    e'.Lists (form.operator :: (before ++ part' :: after)) → Regrouped [part] [part'] →
    Regrouped [e] [e']
  | call {e e' f f' part part' : Value} {args args' before after : List Value} :
    formOf? f = none → formOf? f' = none → e.Lists (f :: args) → e'.Lists (f' :: args') →
    f :: args = before ++ part :: after → f' :: args' = before ++ part' :: after →
    Regrouped [part] [part'] → Regrouped [e] [e']

/-- Rows that differ in the grouping of their blocks do the same. -/
theorem Regrouped.sameRow {xs ys : List Value} (h : Regrouped xs ys) : SameRow xs ys := by
  induction h with
  | refl xs => exact .refl xs
  | symm _ ih => exact ih.symm
  | trans _ _ ih ih' => exact ih.trans ih'
  | append _ _ ih ih' => exact ih.append ih'
  | splice listed nonempty => exact .splice listed nonempty
  | begin h h' _ ih => exact .of_sameAs (sameAs_begin h h' ih)
  | body h h' listed listed' _ ih => exact .of_sameAs (sameAs_body h h' listed listed' ih)
  | declaration h h' listed listed' written written' _ ih =>
    exact .of_sameAs (sameAs_declaration h h' listed listed' written written' ih.sameAs)
  | clause h h' written written' _ _ ih ih' =>
    exact .of_sameAs (sameAs_clause h h' written written' ih.sameAs ih'.sameAs)
  | operand place h h' _ ih => exact .of_sameAs (sameAs_operand place h h' ih.sameAs)
  | @call e e' f f' part part' args args' before after unmarked unmarked' h h' parts parts' _ ih =>
    refine .of_sameAs (sameAs_call unmarked unmarked' h h' ?_)
    rw [parts, parts']
    exact sameParts_part ih.sameAs before after

/-- Functions whose bodies differ in the grouping of their blocks do the same when they are called
once. -/
theorem coincide_callOnce {body body' : Value} (same : Regrouped body.toList body'.toList)
    (header : ClosureHeader) (caller : FrameId) (args : List Value) :
    Coincide (·.callOnce caller (.closure header body) args)
      (·.callOnce caller (.closure header body') args) :=
  (Coincide.const (Machine.openFrame header args)).bind fun frame =>
    same.sameRow.block frame Context.functionBody

theorem coincide_call {body body' : Value} (same : Regrouped body.toList body'.toList)
    (header : ClosureHeader) (caller : FrameId) (args : List Value) :
    Coincide (·.call caller (.closure header body) args)
      (·.call caller (.closure header body') args) := by
  refine (Coincide.call caller _ args).trans (.trans ?_ (Coincide.call caller _ args).symm)
  exact (coincide_callOnce same header caller args).bind fun answer =>
    .refl (Attains.grows_settle caller answer)

/-- Blocks compose. A block that is cut in two does exactly what its first part does, in a place
whose value is still needed, and then what its second part does; a first part that stops decides,
whatever the second part is. So a `begin` with one form or more does in any place of a block what
its forms do there, and a `begin` with one form what the form does. Regrouping blocks in this way
changes nothing, at whatever depth they lie in a row of forms or in an expression, in whatever
frame, state and place, if the bounds suffice; and functions with bodies that are regrouped do the
same when they are called, with all calls that they hand back or without. -/
theorem blocks_compose :
    (∀ (limits : Limits) (xs ys : List Value), xs ≠ [] → ys ≠ [] → ∀ env ctx,
      limits.machine.evalBlock env ctx (xs ++ ys) =
          (limits.machine.evalBlock env ctx.inner xs >>= fun _ =>
            limits.machine.evalBlock env ctx ys) ∧
        ∀ w s w', (limits.machine.evalBlock env ctx.inner xs).runFrom w = (.error s, w') →
          (limits.machine.evalBlock env ctx (xs ++ ys)).runFrom w = (.error s, w')) ∧
    (∀ (block : Value) (ys : List Value), ys ≠ [] →
      block.Lists (SpecialForm.begin.operator :: ys) →
      ∀ xs zs env ctx w result w',
        Attains (·.evalBlock env ctx (xs ++ block :: zs)) w result w' ↔
          Attains (·.evalBlock env ctx (xs ++ ys ++ zs)) w result w') ∧
    (∀ block e : Value, block.Lists [SpecialForm.begin.operator, e] → block.SameAs e) ∧
    (∀ xs ys : List Value, Regrouped xs ys → ∀ env ctx w result w',
      Attains (·.evalBlock env ctx xs) w result w' ↔
        Attains (·.evalBlock env ctx ys) w result w') ∧
    (∀ e e' : Value, Regrouped [e] [e'] → e.SameAs e') ∧
    ∀ body body' : Value, Regrouped body.toList body'.toList → ∀ header caller args w,
      (∀ result w', Attains (·.callOnce caller (.closure header body) args) w result w' ↔
        Attains (·.callOnce caller (.closure header body') args) w result w') ∧
      ∀ result w', Attains (·.call caller (.closure header body) args) w result w' ↔
        Attains (·.call caller (.closure header body') args) w result w' := by
  refine ⟨?_, ?_, ?_, ?_, ?_, ?_⟩
  · intro limits xs ys first second env ctx
    have parts := evalBlock_append limits first second env ctx
    exact ⟨parts, fun w s w' stops => parts ▸ EvalM.runFrom_bind_error stops _⟩
  · intro block ys nonempty listed xs zs env ctx w result w'
    have spliced : SameRow (xs ++ [block] ++ zs) (xs ++ ys ++ zs) :=
      ((SameRow.refl xs).append (.splice listed nonempty)).append (.refl zs)
    rw [List.append_assoc, List.singleton_append] at spliced
    exact (spliced.block env ctx).attains_iff w result w'
  · intro block e listed
    exact (SameRow.splice listed (List.cons_ne_nil e [])).sameAs
  · intro xs ys same env ctx
    exact (same.sameRow.block env ctx).attains_iff
  · intro e e' same
    exact same.sameRow.sameAs
  · intro body body' same header caller args w
    exact ⟨(coincide_callOnce same header caller args).attains_iff w,
      (coincide_call same header caller args).attains_iff w⟩

/-- The block `(begin x (if (begin y) (begin x y) x))` between two other forms, and its forms in its
place, the first with `y` for `(begin y)`. Where `x` has no value nothing behind `x` is evaluated,
and a function with the one or the other row as its body does the same. -/
theorem blocks_compose_nested :
    let x := Value.symbol ⟨"x"⟩
    let y := Value.symbol ⟨"y"⟩
    let single := Value.ofList 0 [SpecialForm.begin.operator, y]
    let pair := Value.ofList 2 [SpecialForm.begin.operator, x, y]
    let choice (test : Value) := Value.ofList 5 [SpecialForm.ifElse.operator, test, pair, x]
    let block := Value.ofList 9 [SpecialForm.begin.operator, x, choice single]
    let w : World := ⟨⟨#[⟨none, [(⟨"y"⟩, .bool true)]⟩]⟩, 12, #[]⟩
    Regrouped [y, block, x] [y, x, choice y, x] ∧
      ((machine 1 3).evalBlock 0 Context.topLevel ([x] ++ [block])).runFrom w =
        (.error (.error (.undefinedSymbol "x")), w) ∧
      (∀ result w', Attains (·.evalBlock 0 Context.topLevel ([y] ++ block :: [x])) w result w' ↔
        Attains (·.evalBlock 0 Context.topLevel ([y] ++ [x, choice single] ++ [x])) w result w') ∧
      single.SameAs y ∧
      (∀ result w', Attains (·.evalBlock 0 Context.functionBody [y, block, x]) w result w' ↔
        Attains (·.evalBlock 0 Context.functionBody [y, x, choice y, x]) w result w') ∧
      (choice single).SameAs (choice y) ∧
      ∀ header args result w',
        Attains (·.call 0 (.closure header (.ofList 12 [y, block, x])) args) w result w' ↔
          Attains (·.call 0 (.closure header (.ofList 12 [y, x, choice y, x])) args) w
            result w' := by
  intro x y single pair choice block w
  have alone : Regrouped [single] [y] := .splice (Value.lists_ofList _ _) nofun
  have chosen : Regrouped [choice single] [choice y] :=
    .operand (.test pair [x]) (Value.lists_ofList _ _) (Value.lists_ofList _ _) alone
  have spliced : Regrouped [block] [x, choice single] := .splice (Value.lists_ofList _ _) nofun
  have inside : Regrouped [block] [x, choice y] :=
    spliced.trans (.append (.refl [x]) chosen)
  have whole : Regrouped [y, block, x] [y, x, choice y, x] :=
    .append (.refl [y]) (.append inside (.refl [x]))
  obtain ⟨parts, splices, drops, rows, expressions, functions⟩ := blocks_compose
  refine ⟨whole, ?_, ?_, ?_, ?_, ?_, fun header args result w' => ?_⟩
  · exact (parts ⟨3, 1⟩ [x] [block] nofun nofun 0 Context.topLevel).2 w _ w rfl
  · exact splices block [x, choice single] nofun (Value.lists_ofList _ _) [y] [x] 0
      Context.topLevel w
  · exact drops single y (Value.lists_ofList _ _)
  · exact rows _ _ whole 0 Context.functionBody w
  · exact expressions _ _ chosen
  · exact (functions (.ofList 12 [y, block, x]) (.ofList 12 [y, x, choice y, x]) whole header 0
      args w).2 result w'

end SmallLisp
