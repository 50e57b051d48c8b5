import SmallLisp.Proofs.Eval.Bounds
import SmallLisp.Proofs.Eval.Operands
import SmallLisp.Proofs.Number.Range

/-!
# Failures of evaluation

Two things make evaluation fail with an error outside the language: an integer too long to be
written, wherever a value is shown, and arithmetic that leaves the range of floats. The rules make
neither by themselves. If the machine one level below fails only in the language, and gives only
values that can be written and calls that can be computed, then the rules applied to it fail only in
the language. Main statements: this for expressions (`evalExpr`), for operations (`runBuiltin`) and
for chains of calls (`runChain`).
-/

namespace SmallLisp

/-! ## Values that can be written -/

/-- The number has a text. -/
def Number.Writable : Number → Prop
  | int n => isWritable n = true
  | float _ => True

theorem Number.text_failsInLanguage_iff (n : Number) : FailsInLanguage n.text ↔ n.Writable := by
  cases n with
  | float x => simp [text, Writable]
  | int n =>
    simp only [text, Writable]
    split <;> simp [*, Error.kind, ErrorKind.inLanguage]

/-- The atom has a text. -/
def Atom.Writable : Atom → Prop
  | number n => n.Writable
  | _ => True

theorem Atom.text_failsInLanguage {a : Atom} (h : a.Writable) : FailsInLanguage a.text := by
  cases a with
  | number n => exact (Number.text_failsInLanguage_iff n).2 h
  | _ => simp [Atom.text]

namespace Value

/-- All numbers in a value have texts, also those in the body of a function. -/
def Writable : Value → Prop
  | nil => True
  | atom a => a.Writable
  | cons _ head rest => head.Writable ∧ rest.Writable
  | closure _ body => body.Writable
  | builtin _ => True

theorem Writable.toList {v : Value} (h : v.Writable) : ∀ e ∈ v.toList, e.Writable := by
  induction v with
  | cons id head rest _ ih =>
    rw [toList_cons, List.forall_mem_cons]
    exact ⟨h.1, ih h.2⟩
  | _ => exact fun _ mem => nomatch mem

theorem text_failsInLanguage {v : Value} (h : v.Writable) (levels : Nat) :
    FailsInLanguage (v.text levels) := by
  induction levels generalizing v with
  | zero => simp [text, Error.kind, ErrorKind.inLanguage]
  | succ levels ih =>
    have row {items : List Value} (writable : ∀ e ∈ items, e.Writable) :
        FailsInLanguage (items.mapM (text levels)) :=
      failsInLanguage_mapM fun e mem => ih (writable e mem)
    cases v with
    | nil => simp [text]
    | atom a => exact Atom.text_failsInLanguage h
    | cons id head rest =>
      have whole := row (Writable.toList (v := cons id head rest) h)
      rw [toList_cons] at whole
      exact failsInLanguage_bind_pure_iff.2 whole
    | closure header body =>
      have body := row (Writable.toList (v := body) h)
      exact failsInLanguage_bind_pure_iff.2 body
    | builtin op => simp [text]

/-- What is found wrong with a value is said in the language. -/
theorem error_failsInLanguage {α : Type} {v : Value} (h : v.Writable) (levels : Nat)
    {e : String → Error} (inLanguage : ∀ shown, (e shown).kind.inLanguage = true) :
    FailsInLanguage (do throw (e (← v.text levels)) : Except Error α) :=
  (text_failsInLanguage h levels).bind fun shown _ => (failsInLanguage_error _).2 (inLanguage shown)

theorem part_failsInLanguage {v : Value} (h : v.Writable) (levels : Nat) (p : ListPart) :
    FailsInLanguage (v.part levels p) := by
  cases v with
  | cons id head rest => cases p <;> simp [part, part?]
  | nil => cases p <;> simp [part, part?, Error.kind, ErrorKind.inLanguage]
  | atom | closure | builtin =>
    cases p
    all_goals exact error_failsInLanguage h levels fun _ => rfl

theorem Writable.part {v found : Value} {levels : Nat} {p : ListPart} (h : v.Writable)
    (given : v.part levels p = .ok found) : found.Writable := by
  obtain ⟨id, head, rest, rfl, taken⟩ := eq_cons_of_part given
  cases p with
  | head => exact taken ▸ h.1
  | rest => exact taken ▸ h.2

theorem equal_failsInLanguage (levels : Nat) (a b : Value) :
    FailsInLanguage (a.equal levels b) := by
  induction levels generalizing a b with
  | zero => simp [equal, Error.kind, ErrorKind.inLanguage]
  | succ levels ih =>
    rw [equal]
    induction a generalizing b with
    | cons i head rest _ ihRest =>
      cases b with
      | cons j head' rest' =>
        rw [equalLists]
        split
        · simp
        · refine (ih head head').bind fun same _ => ?_
          split
          · exact ihRest rest'
          · simp
      | _ => simp [equalLists]
    | _ => simp [equalLists]

end Value

namespace Builtin

variable {op : Builtin} {args : List Value} {levels : Nat}

theorem numbers_failsInLanguage (h : ∀ a ∈ args, a.Writable) (op : Builtin) (levels : Nat) :
    FailsInLanguage (op.numbers levels args) := by
  refine failsInLanguage_mapM fun a mem => ?_
  unfold numberArgument
  split
  · simp
  · exact Value.error_failsInLanguage (h a mem) levels fun _ => rfl

theorem numbers_eq_ok {ns : List Number} (h : op.numbers levels args = .ok ns) :
    args = ns.map Value.number := by
  induction args generalizing ns with
  | nil =>
    cases h
    rfl
  | cons a args ih =>
    rw [numbers, List.mapM_cons] at h
    obtain ⟨n, first, h⟩ := Except.bind_eq_ok.1 h
    obtain ⟨rest, others, h⟩ := Except.bind_eq_ok.1 h
    cases h
    rw [ih others, List.map_cons]
    congr 1
    unfold numberArgument at first
    split at first
    · cases first
      rfl
    · exact absurd first Except.bind_error_ne_ok

theorem one_failsInLanguage (op : Builtin) (args : List Value) : FailsInLanguage (op.one args) := by
  unfold one
  split <;> simp [Error.kind, ErrorKind.inLanguage]

theorem two_failsInLanguage (op : Builtin) (args : List Value) : FailsInLanguage (op.two args) := by
  unfold two
  split <;> simp [Error.kind, ErrorKind.inLanguage]

theorem listArgument_failsInLanguage {v : Value} (h : v.Writable) (op : Builtin) (levels : Nat) :
    FailsInLanguage (op.listArgument levels v) := by
  unfold listArgument
  split
  · simp
  · exact Value.error_failsInLanguage h levels fun _ => rfl

theorem equalAll_failsInLanguage (levels : Nat) (args : List Value) :
    FailsInLanguage (equalAll levels args) := by
  fun_induction equalAll levels args with
  | case1 a b rest ih =>
    refine (Value.equal_failsInLanguage levels a b).bind fun same _ => ?_
    split
    · exact ih
    · simp
  | case2 => simp

theorem line_failsInLanguage (h : ∀ a ∈ args, a.Writable) (levels : Nat) :
    FailsInLanguage (line levels args) := by
  refine failsInLanguage_bind_pure_iff.2 (failsInLanguage_mapM fun a mem => ?_)
  unfold printedText
  split
  · simp
  · exact Value.text_failsInLanguage (h a mem) levels

end Builtin

/-! ## Runs that fail in the language -/

namespace EvalM

variable {α β : Type}

/-- Whatever state it starts in, the run fails only with errors of the language, and its result is
as said. -/
def InLanguage (x : EvalM α) (post : α → Prop) : Prop :=
  ∀ w r w', x.runFrom w = (r, w') →
    (∀ e, r = .error (.error e) → e.kind.inLanguage = true) ∧ ∀ a, r = .ok a → post a

namespace InLanguage

variable {x : EvalM α} {f : α → EvalM β} {post : α → Prop} {post' : β → Prop}

theorem pure {a : α} (h : post a) : (pure a : EvalM α).InLanguage post := by
  rintro w r w' run
  cases run
  exact ⟨nofun, fun _ eq => by cases eq; exact h⟩

theorem fail {e : Error} (h : e.kind.inLanguage = true) : (fail e : EvalM α).InLanguage post := by
  rintro w r w' run
  cases run
  exact ⟨fun _ eq => by cases eq; exact h, nofun⟩

theorem unfinished : (throw .unfinished : EvalM α).InLanguage post := by
  rintro w r w' run
  cases run
  exact ⟨nofun, nofun⟩

theorem imp (h : x.InLanguage post) {weaker : α → Prop} (le : ∀ a, post a → weaker a) :
    x.InLanguage weaker := fun w r w' run =>
  ⟨(h w r w' run).1, fun a eq => le a ((h w r w' run).2 a eq)⟩

theorem bind (h : x.InLanguage post) (next : ∀ a, post a → (f a).InLanguage post') :
    (x >>= f).InLanguage post' := by
  intro w r w' run
  rcases first : x.runFrom w with ⟨s | a, w''⟩
  · rw [runFrom_bind_error first] at run
    cases run
    exact ⟨fun e eq => (h w _ _ first).1 e (by cases eq; rfl), nofun⟩
  · rw [runFrom_bind_ok first] at run
    exact next a ((h w _ _ first).2 a rfl) w'' r w' run

/-- What is computed without the state. -/
theorem part_bind {part : Except Error α} (fails : FailsInLanguage part)
    (next : ∀ a, part = .ok a → (f a).InLanguage post') :
    (ofExcept part >>= f).InLanguage post' := by
  cases part with
  | error e => exact fail (fails e rfl)
  | ok a => exact next a rfl

theorem part {part : Except Error α} (fails : FailsInLanguage part) :
    (ofExcept part).InLanguage fun _ => True := by
  rw [← bind_pure (ofExcept part)]
  exact part_bind fails fun _ _ => pure trivial

/-- Steps that only change the state do not fail. -/
theorem modifyGet (step : World → α × World) :
    (modifyGet step : EvalM α).InLanguage fun _ => True := by
  rintro w r w' run
  cases run
  exact ⟨nofun, fun _ _ => trivial⟩

theorem lookup (env : FrameId) (x : Symbol) : (lookup env x).InLanguage fun _ => True := by
  rintro w r w' run
  refine ⟨fun e eq => ?_, fun _ _ => trivial⟩
  cases found : w.heap.lookup? env x with
  | some v =>
    rw [runFrom_lookup_of_some found] at run
    cases run
    cases eq
  | none =>
    rw [runFrom_lookup_of_none found] at run
    cases run
    cases eq
    rfl

theorem assign (env : FrameId) (x : Symbol) (v : Value) :
    (assign env x v).InLanguage fun _ => True := by
  rintro w r w' run
  refine ⟨fun e eq => ?_, fun _ _ => trivial⟩
  cases found : w.heap.find? env x with
  | some owner =>
    rw [runFrom_assign_of_some found] at run
    cases run
    cases eq
  | none =>
    rw [runFrom_assign_of_none found] at run
    cases run
    cases eq
    rfl

end InLanguage

end EvalM

/-! ## The rules -/

/-- A call of which everything that is shown or computed is in range. -/
structure CallFits (fn : Value) (args : List Value) : Prop where
  callee : fn.Writable
  arguments : ∀ a ∈ args, a.Writable
  numbers : ∀ op (ns : List Number), fn = .builtin op → args = ns.map Value.number → op.Fits ns

/-- The value, or the call that would give it, is in range. -/
def Answer.Fits : Answer → Prop
  | .value v => v.Writable
  | .pending fn args => CallFits fn args

/-- A call that is handed back is in range. -/
def Answer.HandsOnFitting : Answer → Prop
  | .value _ => True
  | .pending fn args => CallFits fn args

namespace Machine

open EvalM (InLanguage)

variable {m : Machine} {operands v : Value} {env : FrameId}

section Operands

variable {α : Type} {post : α → Prop} {f : Value → EvalM α}

theorem first_bind_inLanguage (h : operands.Writable)
    (next : ∀ e, e.Writable → (f e).InLanguage post) :
    (EvalM.ofExcept (m.first operands) >>= f).InLanguage post :=
  .part_bind (Value.part_failsInLanguage h m.levels .head) fun e first => next e (h.part first)

theorem others_bind_inLanguage (h : operands.Writable)
    (next : ∀ e, e.Writable → (f e).InLanguage post) :
    (EvalM.ofExcept (m.others operands) >>= f).InLanguage post :=
  .part_bind (Value.part_failsInLanguage h m.levels .rest) fun e others => next e (h.part others)

end Operands

theorem second_failsInLanguage (h : operands.Writable) : FailsInLanguage (m.second operands) :=
  (Value.part_failsInLanguage h m.levels .rest).bind fun _ others =>
    Value.part_failsInLanguage (h.part others) m.levels .head

theorem two_failsInLanguage (h : operands.Writable) : FailsInLanguage (m.two operands) := by
  refine (Value.part_failsInLanguage h m.levels .head).bind fun a _ => ?_
  exact failsInLanguage_bind_pure_iff.2 (second_failsInLanguage h)

theorem nameAt_failsInLanguage (h : v.Writable) (place : NamePlace) :
    FailsInLanguage (m.nameAt place v) := by
  unfold nameAt
  split
  · simp
  · exact Value.error_failsInLanguage h m.levels fun _ => rfl

theorem symbolsFrom_failsInLanguage (index : Nat) (params : List Value) :
    FailsInLanguage (symbolsFrom index params) := by
  fun_induction symbolsFrom index params with
  | case1 => simp
  | case2 index x rest ih =>
    exact failsInLanguage_map_iff.2 ih
  | case3 => simp [Error.kind, ErrorKind.inLanguage]

theorem parameters_failsInLanguage (h : v.Writable) : FailsInLanguage (m.parameters v) := by
  unfold parameters
  split
  · exact symbolsFrom_failsInLanguage 0 v.toList
  · exact Value.error_failsInLanguage h m.levels fun _ => rfl

theorem consArguments_failsInLanguage {args : List Value} (writable : ∀ a ∈ args, a.Writable)
    (levels : Nat) : FailsInLanguage (consArguments levels args) := by
  refine (Builtin.two_failsInLanguage .cons args).bind ?_
  rintro ⟨head, rest⟩ two
  obtain rfl := Builtin.two_eq_ok two
  have list := Builtin.listArgument_failsInLanguage (writable rest (by simp)) .cons levels
  exact failsInLanguage_bind_pure_iff.2 list

theorem applyArguments_failsInLanguage {args : List Value} (writable : ∀ a ∈ args, a.Writable)
    (levels : Nat) : FailsInLanguage (applyArguments levels args) := by
  refine (Builtin.two_failsInLanguage .apply args).bind ?_
  rintro ⟨fn, items⟩ two
  obtain rfl := Builtin.two_eq_ok two
  have list := Builtin.listArgument_failsInLanguage (writable items (by simp)) .apply levels
  exact failsInLanguage_bind_pure_iff.2 list

/-- What is computed from arguments that have to be numbers. -/
theorem numbers_bind_failsInLanguage {α : Type} {op : Builtin} {args : List Value}
    (fits : CallFits (.builtin op) args) (levels : Nat) {f : List Number → Except Error α}
    (h : ∀ ns, args = ns.map Value.number → op.Fits ns → FailsInLanguage (f ns)) :
    FailsInLanguage (op.numbers levels args >>= f) := by
  have checked := Builtin.numbers_failsInLanguage fits.arguments op levels
  refine checked.bind fun ns numbers => ?_
  have all := Builtin.numbers_eq_ok numbers
  exact h ns all (fits.numbers op ns rfl all)

theorem one_bind_failsInLanguage {α : Type} {args : List Value}
    (writable : ∀ a ∈ args, a.Writable) (op : Builtin) {f : Value → Except Error α}
    (h : ∀ a, a.Writable → FailsInLanguage (f a)) : FailsInLanguage (op.one args >>= f) := by
  refine (Builtin.one_failsInLanguage op args).bind fun a one => ?_
  obtain rfl := Builtin.one_eq_ok one
  exact h a (writable a (List.mem_singleton_self a))

theorem remainder_failsInLanguage {args : List Value} (fits : CallFits (.builtin .mod) args)
    (levels : Nat) : FailsInLanguage (Builtin.remainder levels args) := by
  by_cases all : ∃ ns : List Number, args = ns.map Value.number
  · obtain ⟨ns, rfl⟩ := all
    exact (Builtin.remainder_failsInLanguage_iff levels ns).2 (fits.numbers .mod ns rfl rfl)
  · refine (Builtin.two_failsInLanguage .mod args).bind ?_
    rintro ⟨a, b⟩ two
    obtain rfl := Builtin.two_eq_ok two
    have checked := Builtin.numbers_failsInLanguage fits.arguments .mod levels
    refine checked.bind fun ns numbers => ?_
    exact absurd ⟨ns, Builtin.numbers_eq_ok numbers⟩ all

section Arithmetic

variable {op : Builtin} {f : List Number → Except Error Number}

theorem arithmetic_failsInLanguage (iff : ∀ ns, FailsInLanguage (f ns) ↔ op.Fits ns)
    {args : List Value} (fits : CallFits (.builtin op) args) (levels : Nat) :
    FailsInLanguage (do return Value.number (← f (← op.numbers levels args))) :=
  numbers_bind_failsInLanguage fits levels fun ns _ inRange =>
    failsInLanguage_bind_pure_iff.2 ((iff ns).2 inRange)

theorem arithmetic_failsInLanguage_iff (iff : ∀ ns, FailsInLanguage (f ns) ↔ op.Fits ns)
    (levels : Nat) (ns : List Number) :
    FailsInLanguage (do
      return Value.number (← f (← op.numbers levels (ns.map Value.number)))) ↔ op.Fits ns := by
  rw [Builtin.numbers_map_number]
  exact failsInLanguage_bind_pure_iff.trans (iff ns)

end Arithmetic

/-- Evaluating and calling with the machine fails only in the language, and gives only what is in
range. -/
structure Contained (m : Machine) : Prop where
  eval : ∀ e env ctx, (m.eval e env ctx).InLanguage Answer.Fits
  call : ∀ caller fn args, (m.call caller fn args).InLanguage Value.Writable

namespace Contained

theorem value (h : m.Contained) (e : Value) (env : FrameId) (ctx : Context) :
    (m.value e env ctx).InLanguage Value.Writable := by
  apply (h.eval e env ctx.inner).bind
  intro answer fits
  cases answer with
  | value v => exact .pure fits
  | pending fn args => exact h.call env fn args

theorem values (h : m.Contained) (es : List Value) (env : FrameId) (ctx : Context) :
    (m.values es env ctx).InLanguage fun vs => ∀ v ∈ vs, v.Writable := by
  unfold Machine.values
  induction es with
  | nil => exact .pure fun _ mem => nomatch mem
  | cons e es ih =>
    rw [List.mapM_cons]
    apply (h.value e env ctx).bind
    intro v writable
    apply ih.bind
    intro vs others
    exact .pure (List.forall_mem_cons.2 ⟨writable, others⟩)

theorem evalBlock (h : m.Contained) (env : FrameId) (ctx : Context) (forms : List Value) :
    (m.evalBlock env ctx forms).InLanguage Answer.Fits := by
  induction forms with
  | nil => exact .fail rfl
  | cons form rest ih =>
    cases rest with
    | nil => exact h.eval form env ctx
    | cons next rest => exact (h.value form env ctx).bind fun _ _ => ih

theorem evalDefine (h : m.Contained) (writable : operands.Writable) (env : FrameId)
    (ctx : Context) : (m.evalDefine operands env ctx).InLanguage fun _ => True := by
  apply first_bind_inLanguage writable
  intro target named
  apply InLanguage.part_bind (nameAt_failsInLanguage named .define)
  intro x _
  apply InLanguage.part_bind (second_failsInLanguage writable)
  intro e _
  apply (h.value e env ctx).bind
  intro v _
  exact (InLanguage.modifyGet _).bind fun _ _ => .pure trivial

theorem evalSet (h : m.Contained) (writable : operands.Writable) (env : FrameId)
    (ctx : Context) : (m.evalSet operands env ctx).InLanguage fun _ => True := by
  apply first_bind_inLanguage writable
  intro target named
  apply InLanguage.part_bind (nameAt_failsInLanguage named .set)
  intro x _
  apply InLanguage.part_bind (second_failsInLanguage writable)
  intro e _
  apply (h.value e env ctx).bind
  intro v _
  exact (InLanguage.assign env x v).bind fun _ _ => .pure trivial

theorem declareAll (h : m.Contained) {declarations : List Value}
    (writable : ∀ d ∈ declarations, d.Writable) (env : FrameId) (ctx : Context) :
    (m.declareAll env ctx declarations).InLanguage fun _ => True := by
  induction declarations with
  | nil => exact .pure trivial
  | cons declaration declarations ih =>
    rw [List.forall_mem_cons] at writable
    cases declaration with
    | cons id target rest =>
      obtain ⟨⟨hTarget, hRest⟩, others⟩ := writable
      apply InLanguage.part_bind (nameAt_failsInLanguage hTarget .letDeclaration)
      intro x _
      apply first_bind_inLanguage hRest
      intro e _
      apply (h.value e env ctx).bind
      intro v _
      exact (InLanguage.modifyGet _).bind fun _ _ => ih others
    | nil | atom | closure | builtin =>
      exact .part_bind (Value.text_failsInLanguage writable.1 m.levels) fun _ _ => .fail rfl

theorem evalLet (h : m.Contained) (writable : operands.Writable) (env : FrameId)
    (ctx : Context) : (m.evalLet operands env ctx).InLanguage fun _ => True := by
  apply first_bind_inLanguage writable
  intro declarations declared
  split
  · apply (InLanguage.modifyGet _).bind
    intro f _
    apply (h.declareAll declared.toList f ctx).bind
    intro _ _
    apply others_bind_inLanguage writable
    intro body _
    exact (h.evalBlock f ctx body.toList).imp fun _ _ => trivial
  · exact .fail rfl

theorem evalIf (h : m.Contained) (writable : operands.Writable) (env : FrameId) (ctx : Context) :
    (m.evalIf operands env ctx).InLanguage fun _ => True := by
  apply first_bind_inLanguage writable
  intro test _
  apply others_bind_inLanguage writable
  intro rest behind
  apply first_bind_inLanguage behind
  intro thenForm _
  apply others_bind_inLanguage behind
  intro elseForm _
  apply (h.value test env ctx).bind
  intro v _
  split
  · exact (h.eval thenForm env ctx).imp fun _ _ => trivial
  · split
    · exact (h.eval _ env ctx).imp fun _ _ => trivial
    · exact .pure trivial

theorem evalCond (h : m.Contained) {clauses : List Value} (writable : ∀ c ∈ clauses, c.Writable)
    (env : FrameId) (ctx : Context) :
    (m.evalCond env ctx clauses).InLanguage fun _ => True := by
  induction clauses with
  | nil => exact .pure trivial
  | cons clause clauses ih =>
    rw [List.forall_mem_cons] at writable
    cases clause with
    | cons id test rest =>
      apply first_bind_inLanguage writable.1.2
      intro thenForm _
      apply (h.value test env ctx).bind
      intro v _
      split
      · exact (h.eval thenForm env ctx).imp fun _ _ => trivial
      · exact ih writable.2
    | nil | atom | closure | builtin =>
      exact .part_bind (Value.text_failsInLanguage writable.1 m.levels) fun _ _ => .fail rfl

theorem holds (h : m.Contained) (e : Value) (env : FrameId) (ctx : Context) :
    (m.holds e env ctx).InLanguage fun _ => True :=
  (h.value e env ctx).bind fun _ _ => .pure trivial

theorem evalAnd (h : m.Contained) (writable : operands.Writable) (env : FrameId) (ctx : Context) :
    (m.evalAnd operands env ctx).InLanguage fun _ => True := by
  apply InLanguage.part_bind (two_failsInLanguage writable)
  rintro ⟨a, b⟩ _
  apply (h.holds a env ctx).bind
  intro decided _
  cases decided with
  | true => exact (h.holds b env ctx).bind fun _ _ => .pure trivial
  | false => exact .pure trivial

theorem evalOr (h : m.Contained) (writable : operands.Writable) (env : FrameId) (ctx : Context) :
    (m.evalOr operands env ctx).InLanguage fun _ => True := by
  apply InLanguage.part_bind (two_failsInLanguage writable)
  rintro ⟨a, b⟩ _
  apply (h.holds a env ctx).bind
  intro decided _
  cases decided with
  | true => exact .pure trivial
  | false => exact (h.holds b env ctx).bind fun _ _ => .pure trivial

theorem makeClosure {params : Value} (writable : params.Writable) (body : Value) (env : FrameId)
    (name : Option Symbol) :
    (m.makeClosure params body env name).InLanguage fun _ => True :=
  .part_bind (parameters_failsInLanguage writable) fun _ _ =>
    (InLanguage.modifyGet _).bind fun _ _ => .pure trivial

theorem evalLambda (writable : operands.Writable) (env : FrameId) :
    (m.evalLambda operands env).InLanguage fun _ => True := by
  apply first_bind_inLanguage writable
  intro params listed
  apply others_bind_inLanguage writable
  intro body _
  exact (makeClosure listed body env none).bind fun _ _ => .pure trivial

theorem evalDefun (writable : operands.Writable) (env : FrameId) :
    (m.evalDefun operands env).InLanguage fun _ => True := by
  apply first_bind_inLanguage writable
  intro target named
  apply InLanguage.part_bind (nameAt_failsInLanguage named .defun)
  intro x _
  apply others_bind_inLanguage writable
  intro rest behind
  apply first_bind_inLanguage behind
  intro params listed
  apply others_bind_inLanguage behind
  intro body _
  apply (makeClosure listed body env _).bind
  intro v _
  exact (InLanguage.modifyGet _).bind fun _ _ => .pure trivial

theorem evalForm (h : m.Contained) (form : SpecialForm) (writable : operands.Writable)
    (env : FrameId) (ctx : Context) :
    (m.evalForm form operands env ctx).InLanguage fun _ => True := by
  cases form with
  | define => exact h.evalDefine writable env ctx
  | set => exact h.evalSet writable env ctx
  | defun => exact evalDefun writable env
  | lambda => exact evalLambda writable env
  | quote => exact first_bind_inLanguage writable fun _ _ => .pure trivial
  | letBlock => exact h.evalLet writable env ctx
  | begin => exact (h.evalBlock env ctx operands.toList).imp fun _ _ => trivial
  | cond => exact h.evalCond writable.toList env ctx
  | ifElse => exact h.evalIf writable env ctx
  | and => exact h.evalAnd writable env ctx
  | or => exact h.evalOr writable env ctx

theorem finishCall (h : m.Contained) (env : FrameId) (ctx : Context) (fn : Value)
    (args : List Value) : (m.finishCall env ctx fn args).InLanguage fun _ => True := by
  unfold Machine.finishCall
  split
  · exact .pure trivial
  · exact (h.call env fn args).bind fun _ _ => .pure trivial

theorem evalExpr (h : m.Contained) {e : Value} (writable : e.Writable) (env : FrameId)
    (ctx : Context) : (m.evalExpr e env ctx).InLanguage fun _ => True := by
  cases e with
  | atom a =>
    cases a with
    | symbol x => exact (InLanguage.lookup env x).bind fun _ _ => .pure trivial
    | _ => exact .pure trivial
  | cons id operator operands =>
    simp only [Machine.evalExpr]
    cases formOf? operator with
    | some form => exact h.evalForm form writable.2 env ctx
    | none =>
      apply (h.value operator env ctx).bind
      intro fn _
      apply (h.values operands.toList env ctx).bind
      intro args _
      exact h.finishCall env ctx fn args
  | _ => exact .pure trivial

theorem runBuiltin (h : m.Contained) (caller : FrameId) {op : Builtin} {args : List Value}
    (fits : CallFits (.builtin op) args) :
    (m.runBuiltin caller op args).InLanguage fun _ => True := by
  cases op with
  | add => exact .part (arithmetic_failsInLanguage Builtin.sum_failsInLanguage_iff fits m.levels)
  | sub =>
    exact .part (arithmetic_failsInLanguage Builtin.difference_failsInLanguage_iff fits m.levels)
  | mul =>
    exact .part (arithmetic_failsInLanguage Builtin.product_failsInLanguage_iff fits m.levels)
  | div =>
    exact .part (arithmetic_failsInLanguage Builtin.quotient_failsInLanguage_iff fits m.levels)
  | mod =>
    exact .part (failsInLanguage_bind_pure_iff.2 (remainder_failsInLanguage fits m.levels))
  | equals =>
    exact .part (failsInLanguage_bind_pure_iff.2 (Builtin.equalAll_failsInLanguage m.levels args))
  | less | lessEq | greater | greaterEq =>
    exact .part (numbers_bind_failsInLanguage fits m.levels fun _ _ _ => by simp)
  | not | null => exact .part (one_bind_failsInLanguage fits.arguments _ fun _ _ => by simp)
  | car =>
    exact .part (one_bind_failsInLanguage fits.arguments .car fun a writable =>
      Value.part_failsInLanguage writable m.levels .head)
  | cdr =>
    exact .part (one_bind_failsInLanguage fits.arguments .cdr fun a writable =>
      Value.part_failsInLanguage writable m.levels .rest)
  | length =>
    refine .part (one_bind_failsInLanguage fits.arguments .length fun a writable => ?_)
    have list := Builtin.listArgument_failsInLanguage writable .length m.levels
    exact failsInLanguage_bind_pure_iff.2 list
  | cons =>
    apply InLanguage.part_bind (consArguments_failsInLanguage fits.arguments m.levels)
    intro _ _
    exact (InLanguage.modifyGet _).bind fun _ _ => .pure trivial
  | list => exact .modifyGet _
  | apply =>
    apply InLanguage.part_bind (applyArguments_failsInLanguage fits.arguments m.levels)
    intro _ _
    exact (h.call caller _ _).imp fun _ _ => trivial
  | print =>
    apply InLanguage.part_bind (Builtin.line_failsInLanguage fits.arguments m.levels)
    intro text _
    exact (InLanguage.modifyGet _).bind fun _ _ => .pure trivial

theorem bindParameters (frame : FrameId) {tooFew : Error}
    (inLanguage : tooFew.kind.inLanguage = true) (params : List Symbol) (args : List Value) :
    (Machine.bindParameters frame tooFew params args).InLanguage fun _ => True := by
  fun_induction Machine.bindParameters frame tooFew params args with
  | case1 => exact .pure trivial
  | case2 => exact (InLanguage.modifyGet _).bind fun _ _ => .modifyGet _
  | case3 => exact .fail inLanguage
  | case4 p params _ a args ih => exact (InLanguage.modifyGet _).bind fun _ _ => ih

/-- The calls that are handed back come from the machine one level below. -/
theorem callOnce (h : m.Contained) (caller : FrameId) {fn : Value} {args : List Value}
    (fits : CallFits fn args) : (m.callOnce caller fn args).InLanguage Answer.HandsOnFitting := by
  cases fn with
  | closure header body =>
    simp only [Machine.callOnce, openFrame, bind_assoc, pure_bind]
    apply (InLanguage.modifyGet _).bind
    intro frame _
    apply (bindParameters frame rfl header.params args).bind
    intro _ _
    apply (h.evalBlock frame Context.functionBody body.toList).imp
    intro answer answerFits
    cases answer with
    | value v => trivial
    | pending fn args => exact answerFits
  | builtin op =>
    apply (h.runBuiltin caller fits).bind
    intro v _
    exact .pure trivial
  | nil | atom | cons =>
    exact .part_bind (Value.text_failsInLanguage fits.callee m.levels) fun _ _ => .fail rfl

theorem runChain (h : m.Contained) (caller : FrameId) (bounces : Nat) {fn : Value}
    {args : List Value} (fits : CallFits fn args) :
    (m.runChain caller bounces fn args).InLanguage fun _ => True := by
  induction bounces generalizing fn args with
  | zero => exact .unfinished
  | succ bounces ih =>
    apply (h.callOnce caller fits).bind
    intro answer onward
    cases answer with
    | value v => exact .pure trivial
    | pending fn args => exact ih onward

end Contained

end Machine

end SmallLisp
