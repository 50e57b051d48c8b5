import SmallLisp.Proofs.Eval.Blocks
import SmallLisp.Proofs.State.Coherence

/-!
# Calls through `apply`

The call `(apply f (list e ...))` evaluates the parts of the call `(f e ...)` in the same order and
then makes the same call. It has made the cells of a list by then, which nothing refers to any more.
Main statements: what the longer call comes to is the shorter call with the list made in between
(`attains_through_iff`), and so the two come out alike, but for the identities of what they make
(`call_through_apply`).
-/

namespace SmallLisp

open Attains (Grows)
open Machine (formOf?)

theorem Attains.grows_call (caller : FrameId) (fn : Value) (args : List Value) :
    Grows fun m => m.call caller fn args := fun _ _ h => h.call caller fn args

theorem Attains.grows_bind {α β : Type} {x : Machine → EvalM α} {f : α → Machine → EvalM β}
    (grows : Grows x) (next : ∀ a, Grows (f a)) : Grows fun m => x m >>= fun a => f a m :=
  fun _ _ h => EvalM.bind_le_bind (grows h) fun a => next a h

/-- Sequences with the same first part end alike if they do from where that part leaves off. -/
theorem Attains.bind_congr {α β : Type} {x : Machine → EvalM α} {f g : α → Machine → EvalM β}
    (grows : Grows x) (growsF : ∀ a, Grows (f a)) (growsG : ∀ a, Grows (g a)) {w w' : World}
    {result : Except Error β}
    (same : ∀ a w₁, Attains x w (.ok a) w₁ →
      (Attains (f a) w₁ result w' ↔ Attains (g a) w₁ result w')) :
    Attains (fun m => x m >>= fun a => f a m) w result w' ↔
      Attains (fun m => x m >>= fun a => g a m) w result w' :=
  ⟨Coincide.ends_of_bind grows growsG id fun a w₁ ended => (same a w₁ ended).1,
    Coincide.ends_of_bind grows growsF id fun a w₁ ended => (same a w₁ ended).2⟩

variable {env caller : FrameId} {ctx : Context} {w w' : World} {result : Except Error Value}

/-- Where an expression stands and who makes the call that it hands back makes no difference. -/
theorem attains_settled_iff (e : Value) :
    Attains (fun m => m.eval e env ctx >>= fun answer => m.settle caller answer) w result w' ↔
      Attains (·.value e env Context.topLevel) w result w' := by
  have settled {ctx ctx' : Context} {caller caller' : FrameId} :
      Attains (fun m => m.eval e env ctx >>= fun answer => m.settle caller answer) w result w' →
        Attains (fun m => m.eval e env ctx' >>= fun answer => m.settle caller' answer) w
          result w' :=
    fun ⟨_, ends⟩ => (Direct.ends_of_machine ends).machine ctx' caller'
  exact ⟨settled, settled⟩

theorem attains_symbol {s : Symbol} {v : Value} (held : w.heap.lookup? env s = some v) :
    Attains (·.value (.symbol s) env ctx) w (.ok v) w := by
  have looked : ((Limits.mk 1 0).machine.eval (.symbol s) env ctx.inner).runFrom w =
      (.ok (.value v), w) := EvalM.runFrom_bind_ok (EvalM.runFrom_lookup_of_some held) _
  exact ⟨⟨1, 0⟩, Machine.runFrom_value looked, nofun⟩

/-- The value of a call is what the call gives that is made when its parts have their values. -/
theorem coincide_value_call {e f : Value} {es : List Value} (unmarked : formOf? f = none)
    (h : e.Lists (f :: es)) :
    Coincide (·.value e env Context.topLevel) fun m => m.value f env Context.topLevel >>= fun fn =>
      m.values es env Context.topLevel >>= fun args => m.call env fn args := by
  rcases h with _ | @⟨i, _, operands, _, listed⟩
  have made : Context.topLevel.handsBack = false := rfl
  have rule : Coincide (·.eval (.cons i f operands) env Context.topLevel) fun m =>
      m.value f env Context.topLevel >>= fun fn => m.values es env Context.topLevel >>= fun args =>
        m.call env fn args >>= fun v => pure (Answer.value v) :=
    coincide_of_rule fun m => by
      simp only [Machine.evalExpr, unmarked, Machine.evalCall, listed.toList_eq,
        Machine.finishCall_of_not_handsBack made]
  refine (rule.bind fun answer => Coincide.refl (Attains.grows_settle env answer)).trans ?_
  simp only [bind_assoc, pure_bind, Machine.settle, bind_pure]
  exact (Coincide.value f env _).bind fun fn => (Coincide.refl (Attains.grows_values es env _)).bind
    fun args => .refl (Attains.grows_call env fn args)

/-- A call of an operation runs it. -/
theorem coincide_builtin (op : Builtin) (args : List Value) :
    Coincide (·.call caller (.builtin op) args) (·.runBuiltin caller op args) := by
  refine (Coincide.call caller _ args).trans ?_
  have ran : Coincide (·.runBuiltin caller op args) (·.runBuiltin caller op args) :=
    .refl fun _ _ within => within.related.runBuiltin caller op args
  simp only [Machine.callOnce, bind_assoc, pure_bind, Machine.settle, bind_pure]
  exact ran

/-- A call of `apply` is the call of the function with the elements of the list. -/
theorem coincide_apply {fn list : Value} {args : List Value} (listed : list.Lists args) :
    Coincide (·.call caller (.builtin .apply) [fn, list]) (·.call caller fn args) := by
  refine (coincide_builtin .apply [fn, list]).trans ?_
  have arguments (levels : Nat) :
      Machine.applyArguments levels [fn, list] = .ok (fn, args) := by
    rw [← listed.toList_eq]
    cases listed <;> rfl
  simp only [Machine.runBuiltin, arguments]
  exact .refl (Attains.grows_call caller fn args)

/-- To put arguments in a list and to call `apply` with it is to make the list and the call. -/
theorem coincide_list_apply (fn : Value) (args : List Value) :
    Coincide
      (fun m => m.call caller (.builtin .list) args >>= fun list =>
        m.call caller (.builtin .apply) [fn, list])
      (fun m => EvalM.newList args >>= fun _ => m.call caller fn args) := by
  have made : Coincide (·.call caller (.builtin .list) args) fun _ => EvalM.newList args :=
    coincide_builtin .list args
  refine (made.bind fun list => .refl (Attains.grows_call caller _ [fn, list])).trans ?_
  have grows := (Coincide.const (EvalM.newList args)).grows
  refine ⟨Attains.grows_bind grows fun list => Attains.grows_call caller _ [fn, list],
    Attains.grows_bind grows fun _ => Attains.grows_call caller fn args, fun w result w' => ?_⟩
  refine Attains.bind_congr grows (fun list => Attains.grows_call caller _ [fn, list])
    (fun _ => Attains.grows_call caller fn args) fun list w₁ ⟨_, ends⟩ => ?_
  cases ends.1.symm.trans (EvalM.run_newList w args)
  exact (coincide_apply (Value.lists_ofList w.fresh args)).attains_iff _ result w'

/-- The longer call comes to the shorter one, with the list made before it. -/
theorem attains_through_iff {f list through : Value} {es : List Value}
    (listed : list.Lists (.symbol Builtin.list.symbol :: es))
    (applied : through.Lists [.symbol Builtin.apply.symbol, f, list])
    (namesApply : w.heap.lookup? env Builtin.apply.symbol = some (.builtin .apply))
    (namesList : ∀ fn w₁, Attains (·.value f env Context.topLevel) w (.ok fn) w₁ →
      w₁.heap.lookup? env Builtin.list.symbol = some (.builtin .list)) :
    Attains (·.value through env Context.topLevel) w result w' ↔
      Attains (fun m => m.value f env Context.topLevel >>= fun fn =>
        m.values es env Context.topLevel >>= fun args => EvalM.newList args >>= fun _ =>
          m.call env fn args) w result w' := by
  have parts (m : Machine) : m.values [f, list] env Context.topLevel =
      m.value f env Context.topLevel >>= fun fn => m.value list env Context.topLevel >>= fun l =>
        pure [fn, l] := by
    simp only [Machine.values_cons, bind_assoc, pure_bind]
    rfl
  have onward (fn : Value) : Grows fun m =>
      m.value list env Context.topLevel >>= fun l => m.call env (.builtin .apply) [fn, l] :=
    Attains.grows_bind (Attains.grows_value list env _) fun l => Attains.grows_call env _ [fn, l]
  have onward' (fn b : Value) : Grows fun m => m.values es env Context.topLevel >>= fun args =>
      m.call env b args >>= fun l => m.call env (.builtin .apply) [fn, l] :=
    Attains.grows_bind (Attains.grows_values es env _) fun args =>
      Attains.grows_bind (Attains.grows_call env b args) fun l => Attains.grows_call env _ [fn, l]
  -- `apply` is looked up first, from the state in which the call starts
  rw [(coincide_value_call rfl applied).attains_iff,
    (attains_symbol namesApply).bind_iff (Attains.grows_value _ env _)
      (fun a m => m.values [f, list] env Context.topLevel >>= fun args => m.call env a args)
      (Attains.grows_bind (Attains.grows_values _ env _) fun args =>
        Attains.grows_call env _ args)]
  simp only [parts, bind_assoc, pure_bind]
  refine Attains.bind_congr (Attains.grows_value f env _) onward (fun fn => ?_)
    fun fn w₁ ended => ?_
  · exact ((Coincide.refl (Attains.grows_values es env _)).bind fun args =>
      coincide_list_apply fn args).grows'
  -- `list` is looked up where the function expression leaves off
  have looked : Coincide
      (fun m => m.value list env Context.topLevel >>= fun l => m.call env (.builtin .apply) [fn, l])
      (fun m => m.value (.symbol Builtin.list.symbol) env Context.topLevel >>= fun b =>
        m.values es env Context.topLevel >>= fun args => m.call env b args >>= fun l =>
          m.call env (.builtin .apply) [fn, l]) := by
    refine ((coincide_value_call rfl listed).bind fun l =>
      .refl (Attains.grows_call env _ [fn, l])).trans ?_
    simp only [bind_assoc]
    exact (Coincide.value _ env _).bind fun b => .refl (onward' fn b)
  rw [looked.attains_iff, (attains_symbol (namesList fn w₁ ended)).bind_iff
    (Attains.grows_value _ env _) (fun b m => m.values es env Context.topLevel >>= fun args =>
      m.call env b args >>= fun l => m.call env (.builtin .apply) [fn, l]) (onward' fn _)]
  exact ((Coincide.refl (Attains.grows_values es env _)).bind fun args =>
    coincide_list_apply fn args).attains_iff w₁ result w'

/-! ## The list makes no difference -/

namespace Joint

variable {α β : Type} {slack : Nat} {s : Joint slack}

/-- Identities may be left out on the right. -/
theorem Good.advance_right (good : s.Good) (count : Nat) :
    Good ⟨s.pairing, s.left, s.right.advance count⟩ :=
  ⟨good.heap, good.printed, fun u u' pair => ⟨(good.older u u' pair).1, fun i known =>
    Nat.lt_add_right count ((good.older u u' pair).2 i known)⟩⟩

/-- A list that only the second run makes, and does not use, makes no difference. -/
theorem Mirrors.newList_right {x : EvalM α} {y : EvalM β} {post : Pairing slack → α → β → Prop}
    (items : List Value)
    (h : Mirrors ⟨s.pairing, s.left, s.right.advance items.length⟩ x y post) :
    s.Mirrors x (EvalM.newList items >>= fun _ => y) post := by
  rcases h with exhausted | ⟨r, r', s', run, run', later, both⟩
  · exact .inl exhausted
  · exact .inr ⟨r, r', s', run, (EvalM.runFrom_bind_ok (EvalM.run_newList s.right items) _).trans
      run', ⟨later.good, later.grown⟩, both⟩

end Joint

/-- The values that an answer is made of. -/
def Answer.values : Answer → List Value
  | .value v => [v]
  | .pending fn args => fn :: args

namespace World

variable {vs us : List Value} {e f : Value} {es : List Value}

/-- Two ends of runs from one state are the same, but for the identities of what the runs have made.
What there was before stands for itself; the frames with what they bind and the printed text are
alike; and so are the values, or the errors are the same. -/
def Coherent.SameEnd (coherent : w.Coherent vs) (result : Except Error Value) (w₁ : World)
    (result' : Except Error Value) (w₁' : World) : Prop :=
  ∃ P : Pairing 0, coherent.pairing 0 ≤ P ∧ (⟨P, w₁, w₁'⟩ : Joint 0).Good ∧
    Except.Both P.Like result result'

/-- A call of what the parts come to, beside the same with the arguments put in a list first. -/
theorem Coherent.mirrors_call (coherent : w.Coherent (f :: es)) (limits : Limits) (env : FrameId)
    (ctx : Context) :
    (coherent.joint 0).Mirrors
      (limits.machine.value f env ctx >>= fun fn => limits.machine.values es env ctx >>= fun args =>
        limits.machine.call env fn args)
      (limits.machine.value f env ctx >>= fun fn => limits.machine.values es env ctx >>= fun args =>
        EvalM.newList args >>= fun _ => limits.machine.call env fn args) fun P => P.Like := by
  have mirrored : Machine.Mirrored 0 limits.machine limits.machine :=
    mirrored_machine 0 limits.bounces limits.depth
  have operands : (coherent.joint 0).pairing.LikeAll es es := List.forall₂_same.2 fun e member =>
    coherent.like_of_mem (List.mem_cons_of_mem f member)
  apply (mirrored.value (coherent.good 0) (coherent.like_of_mem List.mem_cons_self) env ctx).bind
  intro s fn fn' later function
  apply (mirrored.values later.good (later.likeAll operands) env ctx).bind
  intro s' args args' later' arguments
  refine .newList_right args' (mirrored.call env (later'.good.advance_right _) ?_ arguments)
  exact later'.like function

/-- Evaluation keeps states coherent, together with the answer. -/
theorem Coherent.eval (coherent : w.Coherent vs) (limits : Limits) (env : FrameId) (ctx : Context)
    (member : e ∈ vs) :
    ((limits.machine.eval e env ctx).runFrom w).2.Coherent vs ∧
      ∀ answer, ((limits.machine.eval e env ctx).runFrom w).1 = .ok answer →
        ((limits.machine.eval e env ctx).runFrom w).2.Coherent (answer.values ++ vs) := by
  have mirrors := (mirrored_machine 0 limits.bounces limits.depth).eval env ctx (coherent.good 0)
    (coherent.like_of_mem member)
  refine coherent.run mirrors Answer.values fun P a b alike v inside => ?_
  cases alike with
  | @value u u' alike =>
    cases List.mem_singleton.1 inside
    exact ⟨u', alike⟩
  | pending function arguments =>
    rcases List.mem_cons.1 inside with rfl | behind
    · exact ⟨_, function⟩
    · exact Pairing.exists_related arguments behind

/-- The elements of a list are held where the list is. -/
theorem Coherent.elements (coherent : w.Coherent (e :: vs)) {items : List Value}
    (listed : e.Lists items) : w.Coherent items := by
  have inside {v : Value} (member : v ∈ items) {u : Value} (part : u ∈ v.parts) : u ∈ e.parts := by
    clear coherent
    induction listed with
    | nil => cases member
    | cons id head _ ih =>
      rw [Value.parts, List.mem_cons, List.mem_append]
      rcases List.mem_cons.1 member with rfl | behind
      · exact .inr (.inl part)
      · exact .inr (.inr (ih behind))
  have held {u : Value} (here : w.Holds items u) : w.Holds (e :: vs) u := by
    rcases here with ⟨v, member, part⟩ | bound
    · exact .inl ⟨e, List.mem_cons_self, inside member part⟩
    · exact .inr bound
  exact ⟨fun u u' here here' => coherent.identified u u' (held here) (held here'),
    fun u i here => coherent.older u i (held here)⟩

/-- What is read is coherent with the state into which it is loaded. -/
theorem Coherent.load (coherent : w.Coherent vs) (d : Datum) :
    (w.advance d.cells).Coherent ((Value.load d w.fresh).1 :: vs) := by
  have run : (EvalM.load d).runFrom w = (.ok (Value.load d w.fresh).1, w.advance d.cells) :=
    Prod.ext rfl (congrArg (fun fresh => { w with fresh }) (Value.load_snd d _))
  have kept := (coherent.run (Joint.Mirrors.load (coherent.good 0) d) (fun v => [v])
    fun P v v' alike u member => ⟨v', List.mem_singleton.1 member ▸ alike⟩).2
  rw [run] at kept
  exact kept _ rfl

end World

/-- Calling a function through `apply`, with a list of the arguments, is calling it. Where `apply`
and `list` have their values when they are looked up, the two calls come to the same end, in
whatever places they stand and whoever makes the calls that they hand back: to each end of the one
there is an end of the other with the same value or the same error, the same frames and bindings and
the same printed text, but for the identities of what has been made. This needs a state in which
identities identify. All states of sessions are such states, together with what is read there, and
evaluation keeps them so. -/
theorem call_through_apply :
    (∀ (f direct list through : Value) (es : List Value) (env : FrameId) (w : World),
      formOf? f = none → direct.Lists (f :: es) →
      list.Lists (.symbol Builtin.list.symbol :: es) →
      through.Lists [.symbol Builtin.apply.symbol, f, list] →
      w.heap.lookup? env Builtin.apply.symbol = some (.builtin .apply) →
      (∀ fn w₁, Attains (·.value f env Context.topLevel) w (.ok fn) w₁ →
        w₁.heap.lookup? env Builtin.list.symbol = some (.builtin .list)) →
      ∀ coherent : w.Coherent (f :: es), ∀ ctx ctx' caller caller',
        (∀ result w₁,
          Attains (fun m => m.eval direct env ctx >>= fun answer => m.settle caller answer) w
            result w₁ →
          ∃ result' w₁', Attains (fun m => m.eval through env ctx' >>= fun answer =>
              m.settle caller' answer) w result' w₁' ∧
            coherent.SameEnd result w₁ result' w₁') ∧
        ∀ result' w₁',
          Attains (fun m => m.eval through env ctx' >>= fun answer => m.settle caller' answer) w
            result' w₁' →
          ∃ result w₁, Attains (fun m => m.eval direct env ctx >>= fun answer =>
              m.settle caller answer) w result w₁ ∧
            coherent.SameEnd result w₁ result' w₁') ∧
    (∀ w, Session.Reachable w → ∀ d items, (Value.load d w.fresh).1.Lists items →
      (w.advance d.cells).Coherent items) ∧
    ∀ w vs, w.Coherent vs → ∀ (limits : Limits) env ctx, ∀ e ∈ vs,
      ((limits.machine.eval e env ctx).runFrom w).2.Coherent vs ∧
        ∀ answer, ((limits.machine.eval e env ctx).runFrom w).1 = .ok answer →
          ((limits.machine.eval e env ctx).runFrom w).2.Coherent (answer.values ++ vs) := by
  refine ⟨?_, ?_, ?_⟩
  · intro f direct list through es env w unmarked written listed applied namesApply namesList
      coherent ctx ctx' caller caller'
    simp only [attains_settled_iff, attains_through_iff listed applied namesApply namesList,
      (coincide_value_call unmarked written).attains_iff]
    have mirrors (limits : Limits) := coherent.mirrors_call limits env Context.topLevel
    refine ⟨fun result w₁ ⟨limits, ends⟩ => ?_, fun result' w₁' ⟨limits, ends⟩ => ?_⟩
    · rcases mirrors limits with ⟨loose, -⟩ | ⟨r, r', s, run, run', later, both⟩
      · exact absurd loose (Nat.lt_irrefl 0)
      obtain ⟨rfl, rfl⟩ := Prod.mk.inj (run.symm.trans ends.1)
      obtain ⟨result', ends', same⟩ := ends.exists_of_both run' both
      exact ⟨result', s.right, ⟨limits, ends'⟩, s.pairing, later.grown, later.good, same⟩
    · rcases mirrors limits with ⟨loose, -⟩ | ⟨r, r', s, run, run', later, both⟩
      · exact absurd loose (Nat.lt_irrefl 0)
      obtain ⟨rfl, rfl⟩ := Prod.mk.inj (run'.symm.trans ends.1)
      obtain ⟨result, ends', same⟩ := ends.exists_of_both run both.swap
      exact ⟨result, s.left, ⟨limits, ends'⟩, s.pairing, later.grown, later.good, same.swap⟩
  · intro w reached d items listed
    exact (reached.coherent.load d).elements listed
  · intro w vs coherent limits env ctx e member
    exact coherent.eval limits env ctx member

/-- A function whose body ends in a call that it hands back, called with `#t` at the top level. In
the body of a function, the call through `apply` is itself handed back, and has the same value once
it is made. -/
theorem call_through_apply_pending :
    let f := Value.symbol ⟨"f"⟩
    let x : Symbol := ⟨"x"⟩
    let yes := Value.bool true
    let body := Value.ofList 1 [.ofList 2 [.builtin .not, .symbol x]]
    let fn := Value.closure ⟨0, [x], 0, some ⟨"f"⟩⟩ body
    let direct := Value.ofList 5 [f, yes]
    let list := Value.ofList 7 [.symbol Builtin.list.symbol, yes]
    let through := Value.ofList 9 [.symbol Builtin.apply.symbol, f, list]
    let w : World := ⟨⟨#[⟨none, [(⟨"f"⟩, fn), (Builtin.apply.symbol, .builtin .apply),
      (Builtin.list.symbol, .builtin .list)]⟩]⟩, 12, #[]⟩
    ((Limits.mk 6 6).machine.eval direct 0 Context.topLevel).runFrom w =
        (.ok (.value (.bool false)), { w with heap := w.heap.extend (some 0) |>.define 1 x yes }) ∧
      w.Coherent [f, yes] ∧
      ∃ w', Attains (fun m => m.eval through 0 Context.functionBody >>= fun answer =>
        m.settle 0 answer) w (.ok (.bool false)) w' := by
  intro f x yes body fn direct list through w
  have called : ((Limits.mk 6 6).machine.eval direct 0 Context.topLevel).runFrom w =
      (.ok (.value (.bool false)),
        { w with heap := w.heap.extend (some 0) |>.define 1 x yes }) := by
    decide +kernel
  have coherent : w.Coherent [f, yes] := by
    refine World.coherent_of_parts [fn, .builtin .apply, .builtin .list, f, yes]
      (fun u here => ?_) (by decide) (by decide)
    rcases here with ⟨v, member, inside⟩ | ⟨g, frame, there, entry, bound, inside⟩
    · exact Value.mem_partsOf.2 ⟨v, by simp_all, inside⟩
    · cases g with
      | zero =>
        cases there
        have member : entry.2 ∈ [fn, .builtin .apply, .builtin .list] :=
          List.mem_map_of_mem bound
        exact Value.mem_partsOf.2 ⟨entry.2, List.mem_append_left [f, yes] member, inside⟩
      | succ g => cases there
  have namesList (g : Value) (w₁ : World)
      (ends : Attains (·.value f 0 Context.topLevel) w (.ok g) w₁) :
      w₁.heap.lookup? 0 Builtin.list.symbol = some (.builtin .list) := by
    obtain ⟨-, rfl⟩ := (attains_symbol (v := fn) rfl).unique (Attains.grows_value f 0 _) ends
    rfl
  obtain ⟨forward, -⟩ := call_through_apply.1 f direct list through [yes] 0 w rfl
    (Value.lists_ofList _ _) (Value.lists_ofList _ _) (Value.lists_ofList _ _) rfl namesList
    coherent Context.topLevel Context.functionBody 0 0
  obtain ⟨result', w', ends, P, -, -, both⟩ := forward (.ok (.bool false)) _
    ⟨⟨6, 6⟩, EvalM.runFrom_bind_ok called _, nofun⟩
  refine ⟨called, coherent, w', ?_⟩
  cases both with
  | ok same =>
    cases same
    exact ends

end SmallLisp
