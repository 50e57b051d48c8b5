import SmallLisp.Proofs.State.Discipline

/-!
# Evaluation keeps every discipline

If the machine one level below keeps a discipline, every form and every call does, and so does the
machine one level above. Main statements: the evaluator keeps every discipline, whatever its bounds
(`respects_machine`), and so do single calls, chains of calls and operations (`callOnce`,
`runChain`, `runBuiltin`).
-/

namespace SmallLisp

open Discipline (Later Keeps)

/-- An answer is made of values that evaluation may come upon. -/
def Discipline.AnswerHeld (D : Discipline) (s : Twin) : Answer → Prop
  | .value v => D.Held s v
  | .pending fn args => D.Held s fn ∧ ∀ a ∈ args, D.Held s a

namespace Machine

/-- Evaluating and calling with the machine keeps the discipline. A call may be made from any
frame. -/
structure Respects (m : Machine) (D : Discipline) : Prop where
  eval : ∀ {s : Twin} {e : Value} {env : FrameId} (ctx : Context), D.Good s → D.Code s e →
    D.Frame s env → D.Keeps (some env) s (m.eval e env ctx) D.AnswerHeld
  call : ∀ {s : Twin} {fn : Value} {args : List Value} (caller : FrameId), D.Good s →
    D.Held s fn → (∀ a ∈ args, D.Held s a) → D.Keeps none s (m.call caller fn args) D.Held

variable {D : Discipline} {m : Machine} {s : Twin} {env : FrameId}

theorem code_second {operands e : Value} (h : m.second operands = .ok e)
    (code : D.Operands s operands) : D.Code s e := by
  obtain ⟨rest, others, first⟩ := Except.bind_eq_ok.1 h
  exact Discipline.code_head first (Discipline.operands_rest others code)

/-- The computation gives nothing but atoms. -/
def GivesAtom (x : Except Error Value) : Prop := ∀ v, x = .ok v → ∃ a, v = .atom a

theorem GivesAtom.atom (a : Atom) : GivesAtom (pure (.atom a)) := fun _ eq => by
  cases eq
  exact ⟨a, rfl⟩

theorem GivesAtom.bind {α : Type} {x : Except Error α} {f : α → Except Error Value}
    (h : ∀ a, GivesAtom (f a)) : GivesAtom (x >>= f) := fun v eq => by
  obtain ⟨a, -, eq⟩ := Except.bind_eq_ok.1 eq
  exact h a v eq

namespace Respects

theorem value (h : m.Respects D) (good : D.Good s) {e : Value} (code : D.Code s e)
    (frame : D.Frame s env) (ctx : Context) : D.Keeps (some env) s (m.value e env ctx) D.Held := by
  apply (h.eval ctx.inner good code frame).bind
  intro s' answer later held
  cases answer with
  | value v => exact .pure later.good held
  | pending fn args => exact (h.call env later.good held.1 held.2).of_call

theorem values (h : m.Respects D) (good : D.Good s) {es : List Value}
    (code : ∀ e ∈ es, D.Code s e) (frame : D.Frame s env) (ctx : Context) :
    D.Keeps (some env) s (m.values es env ctx) fun s' vs => ∀ v ∈ vs, D.Held s' v := by
  unfold Machine.values
  induction es generalizing s with
  | nil => exact .pure good fun _ mem => nomatch mem
  | cons e es ih =>
    rw [List.forall_mem_cons] at code
    rw [List.mapM_cons]
    apply (h.value good code.1 frame ctx).bind
    intro s' v later held
    have rest := ih later.good (later.codeAll code.2) (later.frame frame)
    apply rest.bind
    intro s'' vs later' helds
    exact .pure later'.good (List.forall_mem_cons.2 ⟨later'.held held, helds⟩)

theorem evalBlock (h : m.Respects D) (good : D.Good s) {forms : List Value}
    (code : ∀ e ∈ forms, D.Code s e) (frame : D.Frame s env) (ctx : Context) :
    D.Keeps (some env) s (m.evalBlock env ctx forms) D.AnswerHeld := by
  induction forms generalizing s with
  | nil => exact .stop good _
  | cons form rest ih =>
    rw [List.forall_mem_cons] at code
    cases rest with
    | nil => exact h.eval ctx good code.1 frame
    | cons next rest =>
      apply (h.value good code.1 frame ctx).bind
      intro s' _ later _
      exact ih later.good (later.codeAll code.2) (later.frame frame)

theorem evalDefine (h : m.Respects D) (good : D.Good s) {operands : Value}
    (code : D.Operands s operands) (frame : D.Frame s env) (ctx : Context) :
    D.Keeps (some env) s (m.evalDefine operands env ctx) D.AnswerHeld := by
  apply Keeps.part_bind good
  intro target first
  apply Keeps.part_bind good
  intro x name
  obtain rfl := nameAt_eq_ok name
  have named : D.Name x := D.name_of_code (Discipline.code_head first code)
  apply Keeps.part_bind good
  intro e second
  have inside : D.Code s e := code_second second code
  apply (h.value good inside frame ctx).bind
  intro s' v later held
  apply (Keeps.define later.good (later.frame frame) named held).bind
  intro s'' _ later' _
  exact .pure later'.good (later'.held held)

/-- The only form that assigns. -/
theorem evalSet (h : m.Respects D) (good : D.Good s) {id : Nat} {keyword : Symbol}
    {operands : Value} (set : SpecialForm.ofSymbol? keyword = some .set)
    (code : D.Code s (.cons id (.symbol keyword) operands)) (frame : D.Frame s env)
    (ctx : Context) : D.Keeps (some env) s (m.evalSet operands env ctx) D.AnswerHeld := by
  have codeOperands : D.Operands s operands := (D.code_parts code).2
  apply Keeps.part_bind good
  intro target first
  apply Keeps.part_bind good
  intro x name
  obtain rfl := nameAt_eq_ok name
  have named : D.Name x := D.name_of_code (Discipline.code_head first codeOperands)
  apply Keeps.part_bind good
  intro e second
  have inside : D.Code s e := code_second second codeOperands
  apply (h.value good inside frame ctx).bind
  intro s' v later held
  apply (Keeps.assign later.good (later.frame frame) set (later.code code) named held).bind
  intro s'' _ later' _
  exact .pure later'.good (later'.held held)

theorem declareAll (h : m.Respects D) (good : D.Good s) {declarations : List Value}
    (code : ∀ e ∈ declarations, D.Code s e) (frame : D.Frame s env) (ctx : Context) :
    D.Keeps (some env) s (m.declareAll env ctx declarations) fun _ _ => True := by
  induction declarations generalizing s with
  | nil => exact .pure good trivial
  | cons declaration declarations ih =>
    rw [List.forall_mem_cons] at code
    cases declaration with
    | cons id target rest =>
      obtain ⟨codeTarget, codeRest⟩ := D.code_parts code.1
      apply Keeps.part_bind good
      intro x name
      obtain rfl := nameAt_eq_ok name
      have named : D.Name x := D.name_of_code codeTarget
      apply Keeps.part_bind good
      intro e first
      have inside : D.Code s e := Discipline.code_head first codeRest
      apply (h.value good inside frame ctx).bind
      intro s' v later held
      apply (Keeps.define later.good (later.frame frame) named held).bind
      intro s'' _ later' _
      have both := later.trans later'
      exact ih both.good (both.codeAll code.2) (both.frame frame)
    | _ => exact .part_bind good fun _ _ => .stop good _

theorem evalLet (h : m.Respects D) (good : D.Good s) {operands : Value}
    (code : D.Operands s operands) (frame : D.Frame s env) (ctx : Context) :
    D.Keeps (some env) s (m.evalLet operands env ctx) D.AnswerHeld := by
  apply Keeps.part_bind good
  intro declarations first
  have declared := Discipline.codeAll_toList (Discipline.code_head first code)
  split
  · apply Keeps.of_call
    apply Keeps.newFrame_bind good frame
    intro s' f later made
    apply (h.declareAll later.good (later.codeAll declared) made ctx).bind
    intro s'' _ later' _
    apply Keeps.part_bind later'.good
    intro body others
    have inside := Discipline.codeAll_of_operands (Discipline.operands_rest others code)
    exact h.evalBlock later'.good (later'.codeAll (later.codeAll inside)) (later'.frame made) ctx
  · exact .stop good _

theorem evalIf (h : m.Respects D) (good : D.Good s) {operands : Value}
    (code : D.Operands s operands) (frame : D.Frame s env) (ctx : Context) :
    D.Keeps (some env) s (m.evalIf operands env ctx) D.AnswerHeld := by
  apply Keeps.part_bind good
  intro test first
  apply Keeps.part_bind good
  intro rest others
  apply Keeps.part_bind good
  intro thenForm firstRest
  apply Keeps.part_bind good
  intro elseForm othersRest
  have codeTest : D.Code s test := Discipline.code_head first code
  have codeRest : D.Operands s rest := Discipline.operands_rest others code
  have codeThen : D.Code s thenForm := Discipline.code_head firstRest codeRest
  have codeElse : D.Operands s elseForm := Discipline.operands_rest othersRest codeRest
  apply (h.value good codeTest frame ctx).bind
  intro s' v later _
  split
  · exact h.eval ctx later.good (later.code codeThen) (later.frame frame)
  · cases elseForm with
    | cons id form rest =>
      have codeForm := (D.operands_parts codeElse).1
      exact h.eval ctx later.good (later.code codeForm) (later.frame frame)
    | _ => exact .pure later.good (D.held_nil s')

theorem evalCond (h : m.Respects D) (good : D.Good s) {clauses : List Value}
    (code : ∀ e ∈ clauses, D.Code s e) (frame : D.Frame s env) (ctx : Context) :
    D.Keeps (some env) s (m.evalCond env ctx clauses) D.AnswerHeld := by
  induction clauses generalizing s with
  | nil => exact .pure good (D.held_nil s)
  | cons clause clauses ih =>
    rw [List.forall_mem_cons] at code
    cases clause with
    | cons id test rest =>
      obtain ⟨codeTest, codeRest⟩ := D.code_parts code.1
      apply Keeps.part_bind good
      intro thenForm first
      have codeThen : D.Code s thenForm := Discipline.code_head first codeRest
      apply (h.value good codeTest frame ctx).bind
      intro s' v later _
      split
      · exact h.eval ctx later.good (later.code codeThen) (later.frame frame)
      · exact ih later.good (later.codeAll code.2) (later.frame frame)
    | _ => exact .part_bind good fun _ _ => .stop good _

theorem holds (h : m.Respects D) (good : D.Good s) {e : Value} (code : D.Code s e)
    (frame : D.Frame s env) (ctx : Context) :
    D.Keeps (some env) s (m.holds e env ctx) fun _ _ => True :=
  (h.value good code frame ctx).bind fun _ _ later _ => .pure later.good trivial

theorem evalAnd (h : m.Respects D) (good : D.Good s) {operands : Value}
    (code : D.Operands s operands) (frame : D.Frame s env) (ctx : Context) :
    D.Keeps (some env) s (m.evalAnd operands env ctx) D.AnswerHeld := by
  apply Keeps.part_bind good
  rintro ⟨a, b⟩ two
  obtain ⟨first, second⟩ := two_eq_ok two
  have codeA : D.Code s a := Discipline.code_head first code
  have codeB : D.Code s b := code_second second code
  apply (h.holds good codeA frame ctx).bind
  intro s' decided later _
  cases decided with
  | true =>
    apply (h.holds later.good (later.code codeB) (later.frame frame) ctx).bind
    intro s'' v later' _
    exact .pure later'.good (D.held_atom s'' _)
  | false => exact .pure later.good (D.held_atom s' _)

theorem evalOr (h : m.Respects D) (good : D.Good s) {operands : Value}
    (code : D.Operands s operands) (frame : D.Frame s env) (ctx : Context) :
    D.Keeps (some env) s (m.evalOr operands env ctx) D.AnswerHeld := by
  apply Keeps.part_bind good
  rintro ⟨a, b⟩ two
  obtain ⟨first, second⟩ := two_eq_ok two
  have codeA : D.Code s a := Discipline.code_head first code
  have codeB : D.Code s b := code_second second code
  apply (h.holds good codeA frame ctx).bind
  intro s' decided later _
  cases decided with
  | true => exact .pure later.good (D.held_atom s' _)
  | false =>
    apply (h.holds later.good (later.code codeB) (later.frame frame) ctx).bind
    intro s'' v later' _
    exact .pure later'.good (D.held_atom s'' _)

theorem makeClosure (good : D.Good s) {params body : Value} (hparams : D.Code s params)
    (hbody : D.Operands s body) (frame : D.Frame s env) (name : Option Symbol) :
    D.Keeps (some env) s (m.makeClosure params body env name) D.Held := by
  apply Keeps.part_bind good
  intro xs listed
  have names : ∀ x ∈ xs, D.Name x := by
    intro x mem
    have symbols := Discipline.codeAll_toList hparams
    rw [parameters_eq_ok listed] at symbols
    exact D.name_of_code (symbols _ (List.mem_map_of_mem mem))
  apply (Keeps.newId good).bind
  intro s' id later _
  exact .pure later.good (D.held_closure_iff.2 ⟨later.frame frame, names, later.operands hbody⟩)

theorem evalLambda (good : D.Good s) {operands : Value} (code : D.Operands s operands)
    (frame : D.Frame s env) : D.Keeps (some env) s (m.evalLambda operands env) D.AnswerHeld := by
  apply Keeps.part_bind good
  intro params first
  apply Keeps.part_bind good
  intro body others
  have codeParams : D.Code s params := Discipline.code_head first code
  have codeBody : D.Operands s body := Discipline.operands_rest others code
  apply (makeClosure good codeParams codeBody frame none).bind
  intro s' v later held
  exact .pure later.good held

theorem evalDefun (good : D.Good s) {operands : Value} (code : D.Operands s operands)
    (frame : D.Frame s env) : D.Keeps (some env) s (m.evalDefun operands env) D.AnswerHeld := by
  apply Keeps.part_bind good
  intro target first
  apply Keeps.part_bind good
  intro x name
  obtain rfl := nameAt_eq_ok name
  have named : D.Name x := D.name_of_code (Discipline.code_head first code)
  apply Keeps.part_bind good
  intro rest others
  apply Keeps.part_bind good
  intro params firstRest
  apply Keeps.part_bind good
  intro body othersRest
  have codeRest : D.Operands s rest := Discipline.operands_rest others code
  have codeParams : D.Code s params := Discipline.code_head firstRest codeRest
  have codeBody : D.Operands s body := Discipline.operands_rest othersRest codeRest
  apply (makeClosure good codeParams codeBody frame _).bind
  intro s' v later held
  apply (Keeps.define later.good (later.frame frame) named held).bind
  intro s'' _ later' _
  exact .pure later'.good (D.held_nil s'')

theorem evalForm (h : m.Respects D) (good : D.Good s) {id : Nat} {operator operands : Value}
    {form : SpecialForm} (marked : formOf? operator = some form)
    (code : D.Code s (.cons id operator operands)) (frame : D.Frame s env) (ctx : Context) :
    D.Keeps (some env) s (m.evalForm form operands env ctx) D.AnswerHeld := by
  have inside := (D.code_parts code).2
  cases form with
  | define => exact h.evalDefine good inside frame ctx
  | set =>
    obtain ⟨keyword, rfl⟩ : ∃ keyword, operator = .symbol keyword := by
      cases operator with
      | atom a =>
        cases a with
        | symbol keyword => exact ⟨keyword, rfl⟩
        | _ => cases marked
      | _ => cases marked
    exact h.evalSet good marked code frame ctx
  | defun => exact evalDefun good inside frame
  | lambda => exact evalLambda good inside frame
  | quote =>
    apply Keeps.part_bind good
    intro e first
    exact .pure good (D.held_of_code (Discipline.code_head first inside))
  | letBlock => exact h.evalLet good inside frame ctx
  | begin => exact h.evalBlock good (Discipline.codeAll_of_operands inside) frame ctx
  | cond => exact h.evalCond good (Discipline.codeAll_of_operands inside) frame ctx
  | ifElse => exact h.evalIf good inside frame ctx
  | and => exact h.evalAnd good inside frame ctx
  | or => exact h.evalOr good inside frame ctx

theorem finishCall (h : m.Respects D) (good : D.Good s) {fn : Value} {args : List Value}
    (hfn : D.Held s fn) (hargs : ∀ a ∈ args, D.Held s a) (ctx : Context) :
    D.Keeps (some env) s (m.finishCall env ctx fn args) D.AnswerHeld := by
  cases back : ctx.handsBack with
  | true =>
    rw [finishCall_of_handsBack back]
    exact .pure good ⟨hfn, hargs⟩
  | false =>
    rw [finishCall_of_not_handsBack back]
    have called : D.Keeps (some env) s (m.call env fn args) D.Held :=
      (h.call env good hfn hargs).of_call
    apply called.bind
    intro s' v later held
    exact .pure later.good held

theorem evalCall (h : m.Respects D) (good : D.Good s) {operator operands : Value}
    (hoperator : D.Code s operator) (hoperands : D.Operands s operands) (frame : D.Frame s env)
    (ctx : Context) :
    D.Keeps (some env) s (m.evalCall operator operands env ctx) D.AnswerHeld := by
  apply (h.value good hoperator frame ctx).bind
  intro s' fn later hfn
  have code := later.codeAll (Discipline.codeAll_of_operands hoperands)
  apply (h.values later.good code (later.frame frame) ctx).bind
  intro s'' args later' hargs
  exact h.finishCall later'.good (later'.held hfn) hargs ctx

theorem evalExpr (h : m.Respects D) (good : D.Good s) {e : Value} (code : D.Code s e)
    (frame : D.Frame s env) (ctx : Context) :
    D.Keeps (some env) s (m.evalExpr e env ctx) D.AnswerHeld := by
  cases e with
  | atom a =>
    cases a with
    | symbol x =>
      have named : D.Name x := D.name_of_code code
      apply (Keeps.lookup good frame named).bind
      intro s' v later held
      exact .pure later.good held
    | _ => exact .pure good (D.held_atom s _)
  | cons id operator operands =>
    simp only [Machine.evalExpr]
    cases marked : formOf? operator with
    | some form => exact h.evalForm good marked code frame ctx
    | none => exact h.evalCall good (D.code_parts code).1 (D.code_parts code).2 frame ctx
  | _ => exact .pure good (D.held_of_code code)

theorem atomResult (good : D.Good s) {x : Except Error Value} (h : GivesAtom x) :
    D.Keeps none s (EvalM.ofExcept x) D.Held := by
  rw [← bind_pure (EvalM.ofExcept x)]
  apply Keeps.part_bind good
  intro v given
  obtain ⟨a, rfl⟩ := h v given
  exact .pure good (D.held_atom s a)

theorem partResult (good : D.Good s) {args : List Value} (hargs : ∀ a ∈ args, D.Held s a)
    (op : Builtin) (levels : Nat) (p : ListPart) :
    D.Keeps none s (EvalM.ofExcept do (← op.one args).part levels p) D.Held := by
  rw [EvalM.ofExcept_bind]
  apply Keeps.part_bind good
  intro a one
  obtain rfl := Builtin.one_eq_ok one
  rw [← bind_pure (EvalM.ofExcept _)]
  apply Keeps.part_bind good
  intro v found
  have held : D.Held s a := hargs a (List.mem_singleton_self a)
  exact .pure good (Discipline.held_part found held)

/-- An operation gives an atom, a part of an argument, a new list, or what a call gives. -/
theorem runBuiltin (h : m.Respects D) (good : D.Good s) (caller : FrameId) (op : Builtin)
    {args : List Value} (hargs : ∀ a ∈ args, D.Held s a) :
    D.Keeps none s (m.runBuiltin caller op args) D.Held := by
  cases op with
  | add | sub | mul | div => exact atomResult good (.bind fun ns => .bind fun n => .atom _)
  | mod | equals | not | null => exact atomResult good (.bind fun r => .atom _)
  | less | lessEq | greater | greaterEq => exact atomResult good (.bind fun ns => .atom _)
  | car => exact partResult good hargs .car m.levels .head
  | cdr => exact partResult good hargs .cdr m.levels .rest
  | length => exact atomResult good (.bind fun a => .bind fun list => .atom _)
  | cons =>
    apply Keeps.part_bind good
    rintro ⟨head, rest⟩ arguments
    obtain ⟨rfl, list⟩ := consArguments_eq_ok arguments
    exact .newCell good (hargs head (by simp)) (hargs rest (by simp)) list
  | list => exact .newList good hargs
  | apply =>
    apply Keeps.part_bind good
    rintro ⟨fn, items⟩ arguments
    obtain ⟨list, rfl, rfl⟩ := applyArguments_eq_ok arguments
    have hitems := Discipline.heldAll_toList (hargs list (by simp))
    exact h.call caller good (hargs fn (by simp)) hitems
  | print =>
    apply Keeps.part_bind good
    intro text _
    apply (Keeps.emit good text).bind
    intro s' _ later _
    exact .pure later.good (D.held_nil s')

theorem bindParameters (good : D.Good s) (frame : D.Frame s env) (tooFew : Error)
    {params : List Symbol} (names : ∀ x ∈ params, D.Name x) {args : List Value}
    (hargs : ∀ a ∈ args, D.Held s a) :
    D.Keeps (some env) s (Machine.bindParameters env tooFew params args) fun _ _ => True := by
  induction params generalizing s args with
  | nil => exact .pure good trivial
  | cons x params ih =>
    rw [List.forall_mem_cons] at names
    unfold Machine.bindParameters
    split
    · apply (Keeps.newList good hargs).bind
      intro s' list later held
      exact .define later.good (later.frame frame) names.1 held
    · cases args with
      | nil => exact .stop good _
      | cons a args =>
        rw [List.forall_mem_cons] at hargs
        apply (Keeps.define good frame names.1 hargs.1).bind
        intro s' _ later _
        exact ih later.good (later.frame frame) names.2 (later.heldAll hargs.2)

/-- The body of a function is evaluated in a frame that was not there before the call. -/
theorem callOnce (h : m.Respects D) (good : D.Good s) (caller : FrameId) {fn : Value}
    {args : List Value} (hfn : D.Held s fn) (hargs : ∀ a ∈ args, D.Held s a) :
    D.Keeps none s (m.callOnce caller fn args) D.AnswerHeld := by
  cases fn with
  | closure header body =>
    obtain ⟨frame, names, code⟩ := D.held_closure_iff.1 hfn
    have inside := Discipline.codeAll_of_operands code
    simp only [Machine.callOnce, openFrame, bind_assoc, pure_bind]
    apply Keeps.newFrame_bind good frame
    intro s' f later made
    apply (bindParameters later.good made _ names (later.heldAll hargs)).bind
    intro s'' _ later' _
    exact h.evalBlock later'.good (later'.codeAll (later.codeAll inside)) (later'.frame made) _
  | builtin op =>
    apply (h.runBuiltin good caller op hargs).bind
    intro s' v later held
    exact .pure later.good held
  | _ => exact .part_bind good fun _ _ => .stop good _

theorem runChain (h : m.Respects D) (good : D.Good s) (caller : FrameId) (bounces : Nat)
    {fn : Value} {args : List Value} (hfn : D.Held s fn) (hargs : ∀ a ∈ args, D.Held s a) :
    D.Keeps none s (m.runChain caller bounces fn args) D.Held := by
  induction bounces generalizing s fn args with
  | zero => exact .stop good _
  | succ bounces ih =>
    apply (h.callOnce good caller hfn hargs).bind
    intro s' answer later held
    cases answer with
    | value v => exact .pure later.good held
    | pending fn args => exact ih later.good held.1 held.2

/-- One level more keeps what the levels below keep. -/
theorem next (h : m.Respects D) (bounces : Nat) : (m.next bounces).Respects D where
  eval ctx good code frame := h.evalExpr good code frame ctx
  call caller good hfn hargs := h.runChain good caller bounces hfn hargs

end Respects

theorem respects_machine (D : Discipline) (bounces depth : Nat) :
    (machine bounces depth).Respects D := by
  induction depth with
  | zero => exact ⟨fun _ good _ _ => .stop good _, fun _ good _ _ => .stop good _⟩
  | succ depth ih => exact ih.next bounces

end Machine

end SmallLisp
