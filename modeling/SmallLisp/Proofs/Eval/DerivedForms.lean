import Mathlib.Data.List.Forall2
import SmallLisp.Proofs.Eval.Operands
import SmallLisp.Proofs.Eval.TailPosition

/-!
# Forms that others can stand for

`cond` can be written as nested `if`, `and` and `or` as `if` with the two truth values, and the
declarations of a `let` as definitions at the start of its body. Two expressions are the same if
they end in the same way from every state, in every frame and every place, once the bounds suffice
for both. Main statements: sequences coincide if their parts do (`Coincide.bind`), and the forms are
the same as their expansions (`derived_forms_expand`).
-/

namespace SmallLisp

namespace Value

/-- The value is the list of these elements, whatever the identities of its cells. -/
inductive Lists : Value → List Value → Prop
  | nil : Lists .nil []
  | cons (id : Nat) (head : Value) {rest : Value} {items : List Value} :
    Lists rest items → Lists (.cons id head rest) (head :: items)

theorem Lists.toList_eq {v : Value} {items : List Value} (h : v.Lists items) :
    v.toList = items := by
  induction h with
  | nil => rfl
  | cons id head _ ih => rw [toList_cons, ih]

theorem Lists.isList {v : Value} {items : List Value} (h : v.Lists items) : v.isList = true := by
  cases h <;> rfl

theorem lists_ofList (id : Nat) (items : List Value) : (ofList id items).Lists items := by
  have onto (latestFirst : List Value) : ∀ {rest : Value} {items : List Value} (id : Nat),
      rest.Lists items → (consAll id rest latestFirst).Lists (latestFirst.reverse ++ items) := by
    induction latestFirst with
    | nil => exact fun _ listed => listed
    | cons v latestFirst ih =>
      intro rest items id listed
      rw [List.reverse_cons, List.append_assoc]
      exact ih (id + 1) (.cons id v listed)
  have listed := onto items.reverse id .nil
  rwa [List.reverse_reverse, List.append_nil] at listed

/-- The expressions do the same wherever they stand: from every state they end with the same value,
the same call or the same error, and leave the same state, if the bounds suffice for both. -/
def SameAs (e e' : Value) : Prop :=
  ∀ env ctx w result w',
    Attains (·.eval e env ctx) w result w' ↔ Attains (·.eval e' env ctx) w result w'

end Value

open Attains (Grows)
open EvalM (boundOrder)

/-- Two runs that do the same where the bounds suffice for both, and that do not change their ways
when the bounds are widened. -/
structure Coincide {α : Type} (x y : Machine → EvalM α) : Prop where
  grows : Grows x
  grows' : Grows y
  attains_iff : ∀ w result w', Attains x w result w' ↔ Attains y w result w'

namespace Coincide

variable {α β : Type} {x y z : Machine → EvalM α} {env : FrameId} {ctx : Context}

theorem refl (grows : Grows x) : Coincide x x := ⟨grows, grows, fun _ _ _ => .rfl⟩

theorem symm (h : Coincide x y) : Coincide y x :=
  ⟨h.grows', h.grows, fun w result w' => (h.attains_iff w result w').symm⟩

theorem trans (h : Coincide x y) (h' : Coincide y z) : Coincide x z :=
  ⟨h.grows, h'.grows', fun w result w' =>
    (h.attains_iff w result w').trans (h'.attains_iff w result w')⟩

/-- A run that uses no machine. -/
theorem const (x : EvalM α) : Coincide (fun _ => x) (fun _ => x) := refl fun _ _ _ => le_refl x

theorem value (e : Value) (env : FrameId) (ctx : Context) :
    Coincide (·.value e env ctx) (·.value e env ctx) := refl (Attains.grows_value e env ctx)

theorem eval (e : Value) (env : FrameId) (ctx : Context) :
    Coincide (·.eval e env ctx) (·.eval e env ctx) := refl (Attains.grows_eval e env ctx)

/-- A sequence ends as another does whose parts end as its own do, each from where the part before
it leaves off. -/
theorem ends_of_bind {f g : α → Machine → EvalM β} (grows : Grows y)
    (nextGrows : ∀ a, Grows (g a)) {w w' : World} {result : Except Error β}
    (first : ∀ {result w'}, Attains x w result w' → Attains y w result w')
    (next : ∀ a w₁, Attains x w (.ok a) w₁ → Attains (f a) w₁ result w' →
      Attains (g a) w₁ result w')
    (h : Attains (fun m => x m >>= fun a => f a m) w result w') :
    Attains (fun m => y m >>= fun a => g a m) w result w' := by
  rcases Attains.of_bind h with ⟨e, failed, rfl⟩ | ⟨a, w₁, ended, rest⟩
  · obtain ⟨limits, failed⟩ := first failed
    exact ⟨limits, failed.bind_error _⟩
  · exact (first ended).bind grows g (nextGrows a) (next a w₁ ended rest)

theorem bind {f g : α → Machine → EvalM β} (h : Coincide x y) (next : ∀ a, Coincide (f a) (g a)) :
    Coincide (fun m => x m >>= fun a => f a m) (fun m => y m >>= fun a => g a m) where
  grows _ _ within := EvalM.bind_le_bind (h.grows within) fun a => (next a).grows within
  grows' _ _ within := EvalM.bind_le_bind (h.grows' within) fun a => (next a).grows' within
  attains_iff _ _ _ :=
    ⟨ends_of_bind h.grows' (fun a => (next a).grows') (h.attains_iff _ _ _).1
        fun a w₁ _ => ((next a).attains_iff w₁ _ _).1,
      ends_of_bind h.grows (fun a => (next a).grows) (h.attains_iff _ _ _).2
        fun a w₁ _ => ((next a).attains_iff w₁ _ _).2⟩

theorem test {yes yes' no no' : Machine → EvalM α} (sameYes : Coincide yes yes')
    (sameNo : Coincide no no') (b : Bool) :
    Coincide (fun m => if b then yes m else no m) (fun m => if b then yes' m else no' m) := by
  cases b with
  | true => exact sameYes
  | false => exact sameNo

end Coincide

variable {env : FrameId} {ctx : Context}

/-- An expression does what the rule for it does, if it may go one level further down. -/
theorem coincide_of_rule {e : Value} {rule : Machine → EvalM Answer}
    (ruled : ∀ m : Machine, m.evalExpr e env ctx = rule m) : Coincide (·.eval e env ctx) rule where
  grows := Attains.grows_eval e env ctx
  grows' m m' within := by
    rw [← ruled, ← ruled]
    exact within.related.evalExpr e env ctx
  attains_iff w result w' := by
    refine ⟨fun ⟨limits, ends⟩ => ?_, Row.gives_of_rule ruled⟩
    obtain ⟨depth, bounces⟩ := limits
    cases depth with
    | zero => exact absurd ⟨_, w, .inl rfl, rfl⟩ ends.not_exhausts
    | succ depth =>
      refine ⟨⟨depth, bounces⟩, ?_⟩
      rw [← ruled]
      exact ends

theorem coincide_form {form : SpecialForm} {id : Nat} {operands : Value}
    {rule : Machine → EvalM Answer}
    (ruled : ∀ m : Machine, m.evalForm form operands env ctx = rule m) :
    Coincide (·.eval (.cons id form.operator operands) env ctx) rule :=
  coincide_of_rule fun m => by
    rw [← ruled, Machine.evalExpr, Machine.formOf?_operator]

theorem coincide_bool (b : Bool) :
    Coincide (·.eval (.bool b) env ctx) fun _ => pure (.value (.bool b)) :=
  coincide_of_rule fun _ => rfl

theorem coincide_if {e test yes no : Value} {more : List Value}
    (h : e.Lists (SpecialForm.ifElse.operator :: test :: yes :: no :: more)) :
    Coincide (·.eval e env ctx) fun m => m.value test env ctx >>= fun v =>
      if v.isTrue then m.eval yes env ctx else m.eval no env ctx := by
  rcases h with _ | ⟨i, _, _ | ⟨j, _, _ | ⟨k, _, _ | ⟨l, _, _⟩⟩⟩⟩
  exact coincide_form fun _ => rfl

/-- Without `else` the choice falls on the empty list. -/
theorem coincide_if_short {e test yes : Value}
    (h : e.Lists [SpecialForm.ifElse.operator, test, yes]) :
    Coincide (·.eval e env ctx) fun m => m.value test env ctx >>= fun v =>
      if v.isTrue then m.eval yes env ctx else pure (.value .nil) := by
  rcases h with _ | ⟨i, _, _ | ⟨j, _, _ | ⟨k, _, _ | _⟩⟩⟩
  exact coincide_form fun _ => rfl

/-- The form `(if test #t #f)` gives the truth value of its test. -/
theorem coincide_truth {e test : Value}
    (h : e.Lists [SpecialForm.ifElse.operator, test, .bool true, .bool false]) :
    Coincide (·.eval e env ctx) fun m => m.value test env ctx >>= fun v =>
      pure (.value (.bool v.isTrue)) := by
  refine (coincide_if h).trans ((Coincide.value test env ctx).bind fun v => ?_)
  refine (Coincide.test (coincide_bool true) (coincide_bool false) v.isTrue).trans ?_
  cases v.isTrue
  · exact .const _
  · exact .const _

theorem coincide_and {e a b : Value} {more : List Value}
    (h : e.Lists (SpecialForm.and.operator :: a :: b :: more)) :
    Coincide (·.eval e env ctx) fun m => m.value a env ctx >>= fun v =>
      if v.isTrue then m.value b env ctx >>= fun v => pure (.value (.bool v.isTrue))
      else pure (.value (.bool false)) := by
  rcases h with _ | ⟨i, _, _ | ⟨j, _, _ | ⟨k, _, _⟩⟩⟩
  refine coincide_form fun m => ?_
  show (m.holds a env ctx >>= fun decided =>
    if decided then m.holds b env ctx >>= fun decided => pure (Answer.value (.bool decided))
    else pure (Answer.value (.bool false))) = _
  simp only [Machine.holds, bind_assoc, pure_bind]

theorem coincide_or {e a b : Value} {more : List Value}
    (h : e.Lists (SpecialForm.or.operator :: a :: b :: more)) :
    Coincide (·.eval e env ctx) fun m => m.value a env ctx >>= fun v =>
      if v.isTrue then pure (.value (.bool true))
      else m.value b env ctx >>= fun v => pure (.value (.bool v.isTrue)) := by
  rcases h with _ | ⟨i, _, _ | ⟨j, _, _ | ⟨k, _, _⟩⟩⟩
  refine coincide_form fun m => ?_
  show (m.holds a env ctx >>= fun decided =>
    if decided then pure (Answer.value (.bool true))
    else m.holds b env ctx >>= fun decided => pure (Answer.value (.bool decided))) = _
  simp only [Machine.holds, bind_assoc, pure_bind]

theorem sameAs_and {e e' inner a b : Value} (h : e.Lists [SpecialForm.and.operator, a, b])
    (hInner : inner.Lists [SpecialForm.ifElse.operator, b, .bool true, .bool false])
    (h' : e'.Lists [SpecialForm.ifElse.operator, a, inner, .bool false]) : e.SameAs e' := by
  intro env ctx
  refine ((coincide_and h).trans (.trans ?_ (coincide_if h').symm)).attains_iff
  refine (Coincide.value a env ctx).bind fun v => ?_
  exact .test (coincide_truth hInner).symm (coincide_bool false).symm v.isTrue

theorem sameAs_or {e e' inner a b : Value} (h : e.Lists [SpecialForm.or.operator, a, b])
    (hInner : inner.Lists [SpecialForm.ifElse.operator, b, .bool true, .bool false])
    (h' : e'.Lists [SpecialForm.ifElse.operator, a, .bool true, inner]) : e.SameAs e' := by
  intro env ctx
  refine ((coincide_or h).trans (.trans ?_ (coincide_if h').symm)).attains_iff
  refine (Coincide.value a env ctx).bind fun v => ?_
  exact .test (coincide_bool true).symm (coincide_truth hInner).symm v.isTrue

/-- The clause tests the first expression of the pair and chooses the second. -/
def Value.IsClause (clause : Value) (pair : Value × Value) : Prop :=
  clause.Lists [pair.1, pair.2]

/-- The expression is an `if` that tests the first expression of the first pair and chooses the
second, and has in the place of `else` such an `if` for the pairs that follow, if any do. -/
inductive NestedIf : List (Value × Value) → Value → Prop
  | last {test yes e : Value} : e.Lists [SpecialForm.ifElse.operator, test, yes] →
    NestedIf [(test, yes)] e
  | more {test yes others e : Value} {pairs : List (Value × Value)} : NestedIf pairs others →
    e.Lists [SpecialForm.ifElse.operator, test, yes, others] →
    NestedIf ((test, yes) :: pairs) e

theorem evalCond_cons {clause : Value} {pair : Value × Value} (h : clause.IsClause pair)
    (clauses : List Value) (m : Machine) :
    m.evalCond env ctx (clause :: clauses) = m.value pair.1 env ctx >>= fun v =>
      if v.isTrue then m.eval pair.2 env ctx else m.evalCond env ctx clauses := by
  rcases h with _ | ⟨i, _, _ | ⟨j, _, _⟩⟩
  rfl

/-- The clauses of a `cond` are looked at in the order in which `if` expressions lie inside one
another. -/
theorem coincide_nestedIf {pairs : List (Value × Value)} {nested : Value}
    (h : NestedIf pairs nested) {clauses : List Value}
    (written : List.Forall₂ Value.IsClause clauses pairs) :
    Coincide (·.evalCond env ctx clauses) (·.eval nested env ctx) := by
  induction h generalizing clauses with
  | last listed =>
    obtain ⟨clause, rest, isClause, none, rfl⟩ := List.forall₂_cons_right_iff.1 written
    obtain rfl := List.forall₂_nil_right_iff.1 none
    refine .trans ?_ (coincide_if_short listed).symm
    rw [funext (evalCond_cons isClause [])]
    refine (Coincide.value _ env ctx).bind fun v => ?_
    exact .test (.eval _ env ctx) (.const _) v.isTrue
  | more _ listed ih =>
    obtain ⟨clause, rest, isClause, others, rfl⟩ := List.forall₂_cons_right_iff.1 written
    refine .trans ?_ (coincide_if listed).symm
    rw [funext (evalCond_cons isClause rest)]
    refine (Coincide.value _ env ctx).bind fun v => ?_
    exact .test (.eval _ env ctx) (ih others) v.isTrue

theorem coincide_cond {clauses : List Value} {operands : Value}
    (listed : operands.toList = clauses) (id : Nat) :
    Coincide (·.eval (.cons id SpecialForm.cond.operator operands) env ctx)
      (·.evalCond env ctx clauses) :=
  coincide_form fun m => by rw [Machine.evalForm, listed]

theorem sameAs_cond {pairs : List (Value × Value)} {clauses : List Value} {e nested : Value}
    (h : e.Lists (SpecialForm.cond.operator :: clauses))
    (written : List.Forall₂ Value.IsClause clauses pairs) (h' : NestedIf pairs nested) :
    e.SameAs nested := by
  intro env ctx
  rcases h with _ | ⟨i, _, listed⟩
  exact ((coincide_cond listed.toList_eq i).trans (coincide_nestedIf h' written)).attains_iff

/-- What follows the clause that is chosen makes no difference. -/
theorem Chooses.append {w w' : World} {clauses : List Value} {e : Value}
    (h : Chooses ctx env w clauses e w') (after : List Value) :
    Chooses ctx env w (clauses ++ after) e w' := by
  induction h with
  | this tested holds => exact .this tested holds
  | later tested fails _ ih => exact .later tested fails ih

/-- A `cond` does what the expression does that its tests come to. -/
theorem attains_cond_iff {w w₁ w' : World} {clauses after : List Value} {chosen operands : Value}
    {result : Except Error Answer} (h : Chooses ctx env w clauses chosen w₁) (id : Nat)
    (listed : operands.toList = clauses ++ after) :
    Attains (·.eval (.cons id SpecialForm.cond.operator operands) env ctx) w result w' ↔
      Attains (·.eval chosen env ctx) w₁ result w' :=
  ((coincide_cond listed id).attains_iff w result w').trans
    (Row.attains_evalCond_iff (h.append after))

/-- The declaration names the symbol and gives it the expression. -/
def Value.IsDeclaration (declaration : Value) (binding : Symbol × Value) : Prop :=
  declaration.Lists [.symbol binding.1, binding.2]

/-- The definition names the symbol and gives it the expression. -/
def Value.IsDefinition (definition : Value) (binding : Symbol × Value) : Prop :=
  definition.Lists [SpecialForm.define.operator, .symbol binding.1, binding.2]

theorem declareAll_cons {declaration : Value} {binding : Symbol × Value}
    (h : declaration.IsDeclaration binding) (frame : FrameId) (declarations : List Value)
    (m : Machine) :
    m.declareAll frame ctx (declaration :: declarations) =
      m.value binding.2 frame ctx >>= fun v => EvalM.define frame binding.1 v >>= fun _ =>
        m.declareAll frame ctx declarations := by
  rcases h with _ | ⟨i, _, _ | ⟨j, _, _⟩⟩
  rfl

theorem evalBlock_cons {rest : List Value} (more : rest ≠ []) (m : Machine) (form : Value) :
    m.evalBlock env ctx (form :: rest) =
      m.value form env ctx >>= fun _ => m.evalBlock env ctx rest := by
  cases rest with
  | nil => exact absurd rfl more
  | cons next rest => rfl

/-- A definition in the middle of a body does what the declaration does. Its value goes unused. -/
theorem coincide_definition {definition : Value} {binding : Symbol × Value}
    (h : definition.IsDefinition binding) :
    Coincide (·.value definition env ctx) fun m => m.value binding.2 env ctx >>= fun v =>
      EvalM.define env binding.1 v >>= fun _ => pure v := by
  have rule : Coincide (·.eval definition env ctx.inner) fun m =>
      m.value binding.2 env ctx >>= fun v => EvalM.define env binding.1 v >>= fun _ =>
        pure (Answer.value v) := by
    rcases h with _ | ⟨i, _, _ | ⟨j, _, _ | ⟨k, _, _⟩⟩⟩
    exact coincide_form fun _ => rfl
  refine (rule.bind fun answer => Coincide.refl (Attains.grows_settle env answer)).trans ?_
  simp only [bind_assoc, pure_bind]
  exact (Coincide.value _ env ctx).bind fun v => (Coincide.const _).bind fun _ => .const (pure v)

/-- Declarations are made as definitions in front of a body are. -/
theorem coincide_declareAll {bindings : List (Symbol × Value)}
    {declarations definitions body : List Value}
    (declared : List.Forall₂ Value.IsDeclaration declarations bindings)
    (defined : List.Forall₂ Value.IsDefinition definitions bindings) (more : body ≠ []) :
    Coincide (fun m => m.declareAll env ctx declarations >>= fun _ => m.evalBlock env ctx body)
      (·.evalBlock env ctx (definitions ++ body)) := by
  induction bindings generalizing declarations definitions with
  | nil =>
    obtain rfl := List.forall₂_nil_right_iff.1 declared
    obtain rfl := List.forall₂_nil_right_iff.1 defined
    exact .refl (Attains.grows_evalBlock env ctx body)
  | cons binding bindings ih =>
    obtain ⟨declaration, declarations, isDeclaration, others, rfl⟩ :=
      List.forall₂_cons_right_iff.1 declared
    obtain ⟨definition, definitions, isDefinition, others', rfl⟩ :=
      List.forall₂_cons_right_iff.1 defined
    have behind : definitions ++ body ≠ [] := List.append_ne_nil_of_right_ne_nil _ more
    simp only [declareAll_cons isDeclaration, List.cons_append, evalBlock_cons behind]
    refine .trans ?_ ((coincide_definition isDefinition).bind fun _ => .refl
      (Attains.grows_evalBlock env ctx (definitions ++ body))).symm
    simp only [bind_assoc, pure_bind]
    refine (Coincide.value _ env ctx).bind fun v => ?_
    exact (Coincide.const _).bind fun _ => ih others others'

theorem coincide_let {e list : Value} {declarations body : List Value}
    (h : e.Lists (SpecialForm.letBlock.operator :: list :: body))
    (listed : list.Lists declarations) :
    Coincide (·.eval e env ctx) fun m => EvalM.newFrame (some env) >>= fun frame =>
      m.declareAll frame ctx declarations >>= fun _ => m.evalBlock frame ctx body := by
  rcases h with _ | ⟨i, _, _ | ⟨j, _, bodyListed⟩⟩
  refine coincide_form fun m => ?_
  rw [← listed.toList_eq, ← bodyListed.toList_eq]
  exact Row.evalLet_cons m listed.isList

theorem sameAs_let {bindings : List (Symbol × Value)} {declarations definitions body : List Value}
    {e e' list : Value} (h : e.Lists (SpecialForm.letBlock.operator :: list :: body))
    (listed : list.Lists declarations)
    (declared : List.Forall₂ Value.IsDeclaration declarations bindings)
    (defined : List.Forall₂ Value.IsDefinition definitions bindings) (more : body ≠ [])
    (h' : e'.Lists (SpecialForm.letBlock.operator :: .nil :: (definitions ++ body))) :
    e.SameAs e' := by
  intro env ctx
  refine ((coincide_let h listed).trans (.trans ?_ (coincide_let h' .nil).symm)).attains_iff
  exact (Coincide.const _).bind fun frame => coincide_declareAll declared defined more

/-- Derived forms are the same as their expansions. A `cond` with one clause or more, each of two
expressions, is the same as the `if` expressions that lie inside one another; whatever follows the
clause of which the test is the first to hold makes no difference. The forms `and` and `or` are the
same as `if` expressions that give truth values. A `let` with a body that is not empty is the same
as one without declarations that starts with definitions of the same symbols. -/
theorem derived_forms_expand :
    (∀ (pairs : List (Value × Value)) (clauses : List Value) (e expansion : Value),
      e.Lists (SpecialForm.cond.operator :: clauses) →
      List.Forall₂ Value.IsClause clauses pairs → NestedIf pairs expansion →
      e.SameAs expansion) ∧
    (∀ ctx env w clauses chosen w₁, Chooses ctx env w clauses chosen w₁ →
      ∀ id id' operands operands' after after', operands.toList = clauses ++ after →
        operands'.toList = clauses ++ after' → ∀ result w',
        (Attains (·.eval (.cons id SpecialForm.cond.operator operands) env ctx) w result w' ↔
          Attains (·.eval (.cons id' SpecialForm.cond.operator operands') env ctx) w result w') ∧
        (Attains (·.eval (.cons id SpecialForm.cond.operator operands) env ctx) w result w' ↔
          Attains (·.eval chosen env ctx) w₁ result w')) ∧
    (∀ a b e inner expansion : Value, e.Lists [SpecialForm.and.operator, a, b] →
      inner.Lists [SpecialForm.ifElse.operator, b, .bool true, .bool false] →
      expansion.Lists [SpecialForm.ifElse.operator, a, inner, .bool false] →
      e.SameAs expansion) ∧
    (∀ a b e inner expansion : Value, e.Lists [SpecialForm.or.operator, a, b] →
      inner.Lists [SpecialForm.ifElse.operator, b, .bool true, .bool false] →
      expansion.Lists [SpecialForm.ifElse.operator, a, .bool true, inner] →
      e.SameAs expansion) ∧
    (∀ (bindings : List (Symbol × Value)) (declarations definitions body : List Value)
      (list e expansion : Value), List.Forall₂ Value.IsDeclaration declarations bindings →
      List.Forall₂ Value.IsDefinition definitions bindings → body ≠ [] →
      list.Lists declarations → e.Lists (SpecialForm.letBlock.operator :: list :: body) →
      expansion.Lists (SpecialForm.letBlock.operator :: .nil :: (definitions ++ body)) →
      e.SameAs expansion) := by
  refine ⟨?_, ?_, ?_, ?_, ?_⟩
  · intro pairs clauses e expansion listed written nested
    exact sameAs_cond listed written nested
  · intro ctx env w clauses chosen w₁ chooses id id' operands operands' after after' listed
      listed' result w'
    have whole := @attains_cond_iff env ctx w w₁ w' clauses after chosen operands result chooses
    have whole' := @attains_cond_iff env ctx w w₁ w' clauses after' chosen operands' result chooses
    exact ⟨(whole id listed).trans (whole' id' listed').symm, whole id listed⟩
  · intro a b e inner expansion listed listedInner expanded
    exact sameAs_and listed listedInner expanded
  · intro a b e inner expansion listed listedInner expanded
    exact sameAs_or listed listedInner expanded
  · intro bindings declarations definitions body list e expansion declared defined more listed
      written expanded
    exact sameAs_let written listed declared defined more expanded

/-- The forms `(cond (x y))`, `(and x y)`, `(or x y)` and `(let ((x y)) (y x))`. Where `x` is true,
`(cond (x y) 1)` and `(cond (x y) #t)` end in the same way, although neither `1` nor `#t` is a
clause. -/
theorem derived_forms_expand_instances :
    let x := Value.symbol ⟨"x"⟩
    let y := Value.symbol ⟨"y"⟩
    let clause := Value.ofList 0 [x, y]
    let cond (last : Value) := Value.cons 2 SpecialForm.cond.operator (.ofList 3 [clause, last])
    let w : World := ⟨⟨#[⟨none, [(⟨"x"⟩, .bool true), (⟨"y"⟩, .builtin .not)]⟩]⟩, 50, #[]⟩
    let inner := Value.ofList 5 [SpecialForm.ifElse.operator, y, .bool true, .bool false]
    let block := Value.ofList 9 [y, x]
    let definition := Value.ofList 11 [SpecialForm.define.operator, x, y]
    (Value.ofList 14 [SpecialForm.cond.operator, clause]).SameAs
        (.ofList 16 [SpecialForm.ifElse.operator, x, y]) ∧
      Chooses Context.topLevel 0 w [clause] y w ∧
      (∀ result w', Attains (·.eval (cond (.number (.int 1))) 0 Context.topLevel) w result w' ↔
        Attains (·.eval (cond (.bool true)) 0 Context.topLevel) w result w') ∧
      (Value.ofList 19 [SpecialForm.and.operator, x, y]).SameAs
        (.ofList 22 [SpecialForm.ifElse.operator, x, inner, .bool false]) ∧
      (Value.ofList 26 [SpecialForm.or.operator, x, y]).SameAs
        (.ofList 29 [SpecialForm.ifElse.operator, x, .bool true, inner]) ∧
      (Value.ofList 33 [SpecialForm.letBlock.operator, .ofList 36 [clause], block]).SameAs
        (.ofList 37 [SpecialForm.letBlock.operator, .nil, definition, block]) := by
  intro x y clause cond w inner block definition
  have isClause : clause.IsClause (x, y) := Value.lists_ofList _ _
  have nested : NestedIf [(x, y)] (.ofList 16 [SpecialForm.ifElse.operator, x, y]) :=
    .last (Value.lists_ofList _ _)
  have chooses : Chooses Context.topLevel 0 w [clause] y w :=
    .this (v := .bool true) ⟨⟨2, 1⟩, rfl, nofun⟩ rfl
  obtain ⟨expandCond, cutCond, expandAnd, expandOr, expandLet⟩ := derived_forms_expand
  refine ⟨?_, chooses, fun result w' => ?_, ?_, ?_, ?_⟩
  · exact expandCond [(x, y)] [clause] _ _ (Value.lists_ofList _ _) (.cons isClause .nil) nested
  · exact (cutCond _ _ _ _ _ _ chooses 2 2 _ _ _ _ rfl rfl result w').1
  · exact expandAnd x y _ inner _ (Value.lists_ofList _ _) (Value.lists_ofList _ _)
      (Value.lists_ofList _ _)
  · exact expandOr x y _ inner _ (Value.lists_ofList _ _) (Value.lists_ofList _ _)
      (Value.lists_ofList _ _)
  · exact expandLet [(⟨"x"⟩, y)] [clause] _ [block] _ _ _ (.cons (Value.lists_ofList _ _) .nil)
      (.cons (Value.lists_ofList _ _) .nil) nofun (Value.lists_ofList _ _) (Value.lists_ofList _ _)
      (Value.lists_ofList _ _)

end SmallLisp
