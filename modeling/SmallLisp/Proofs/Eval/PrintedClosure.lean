import SmallLisp.Proofs.Eval.Parameters
import SmallLisp.Proofs.Reader.ClosureText
import SmallLisp.Proofs.State.Coherence

/-!
# A printed function is source for the same function

The text of a function is read back as the form that makes it. Evaluated in the frame in which the
function was made, the form makes a function with the same parameters, the same frame and a copy of
the body. Main statements: what `lambda` and `defun` make of expressions that have been read can be
written (`evalLambda_writable`, `evalDefun_writable`), the form makes a copy
(`runFrom_source`), calls of the copy come out like calls of the original (`callsAlike_of_same`), and
all of this together (`printed_closure_is_source`).
-/

namespace SmallLisp

namespace Value

theorem Printable.isData {v : Value} (h : v.Printable) : v.IsData := by
  induction h with
  | cons _ _ _ ihFirst ihOthers => exact ⟨ihFirst, ihOthers⟩
  | _ => trivial

theorem Printable.of_mem_parts {v u : Value} (h : v.Printable) (inside : u ∈ v.parts) :
    u.Printable := by
  induction h with
  | cons first others list ihFirst ihOthers =>
    rw [parts, List.mem_cons, List.mem_append] at inside
    rcases inside with rfl | inHead | inRest
    · exact .cons first others list
    · exact ihFirst inHead
    · exact ihOthers inRest
  | nil => exact List.mem_singleton.1 inside ▸ .nil
  | bool b => exact List.mem_singleton.1 inside ▸ .bool b
  | int short => exact List.mem_singleton.1 inside ▸ .int short
  | str s => exact List.mem_singleton.1 inside ▸ .str s
  | symbol readable => exact List.mem_singleton.1 inside ▸ .symbol readable

theorem Printable.isReadable {x : Symbol} (h : (Value.symbol x).Printable) : x.IsReadable := by
  generalize shown : Value.symbol x = v at h
  cases h with
  | symbol readable => cases shown; exact readable
  | _ => cases shown

theorem Printable.rest {i : Nat} {head rest : Value} (h : (Value.cons i head rest).Printable) :
    rest.Printable ∧ rest.isList = true := by
  cases h with
  | cons _ others list => exact ⟨others, list⟩

theorem Printable.head {i : Nat} {head rest : Value} (h : (Value.cons i head rest).Printable) :
    head.Printable := by
  cases h with
  | cons first _ _ => exact first

/-- What has a written form is copied when it is loaded from what it shows. -/
theorem Printable.same_load {v : Value} (h : v.Printable) (id : Nat) :
    v.Same (load v.erase id).1 := by
  induction h generalizing id with
  | cons _ _ _ ihFirst ihOthers => exact ⟨ihFirst _, ihOthers _⟩
  | _ => rfl

theorem toList_load_symbols (xs : List Symbol) (id : Nat) :
    (load (.ofList (xs.map Datum.symbol)) id).1.toList = xs.map symbol := by
  induction xs generalizing id with
  | nil => rfl
  | cons x xs ih =>
    rw [List.map_cons, Datum.ofList_cons, load]
    simp only [toList_cons, ih, List.map_cons]
    rfl

end Value

namespace EvalM

variable {α β : Type} {f : α → EvalM β} {w w' : World} {b : β}

/-- What a sequence gives, its second part gives from where the first ended. -/
theorem runFrom_bind_eq_ok {x : EvalM α} (h : (x >>= f).runFrom w = (.ok b, w')) :
    ∃ a w₁, x.runFrom w = (.ok a, w₁) ∧ (f a).runFrom w₁ = (.ok b, w') := by
  rcases run : x.runFrom w with ⟨e | a, w₁⟩
  · rw [runFrom_bind_error run] at h
    cases h
  · rw [runFrom_bind_ok run] at h
    exact ⟨a, w₁, rfl, h⟩

theorem runFrom_ofExcept_bind_eq_ok {part : Except Error α}
    (h : (ofExcept part >>= f).runFrom w = (.ok b, w')) :
    ∃ a, part = .ok a ∧ (f a).runFrom w = (.ok b, w') := by
  cases part with
  | error e => cases h
  | ok a => exact ⟨a, rfl, h⟩

theorem runFrom_bind_congr {x y : EvalM α} (same : x.runFrom w = y.runFrom w) (f : α → EvalM β) :
    (x >>= f).runFrom w = (y >>= f).runFrom w := by
  rcases run : y.runFrom w with ⟨e | a, w'⟩
  · rw [runFrom_bind_error run, runFrom_bind_error (same.trans run)]
  · rw [runFrom_bind_ok run, runFrom_bind_ok (same.trans run)]

end EvalM

namespace Machine

variable {m : Machine} {env : FrameId} {w w' : World} {operands : Value} {a : Answer}

/-! ## Making functions -/

theorem writable_of_makeClosure {params body f : Value} {name : Option Symbol}
    (hparams : params.Printable) (hbody : body.Printable) (list : body.isList = true)
    (run : (m.makeClosure params body env name).runFrom w = (.ok f, w')) :
    ∃ header : ClosureHeader, f = .closure header body ∧ header.env = env ∧ header.name = name ∧
      header.Writable body ∧ w' = w.advance 1 := by
  obtain ⟨xs, listed, made⟩ := EvalM.runFrom_ofExcept_bind_eq_ok run
  cases made
  refine ⟨_, rfl, rfl, rfl, ⟨fun x member => ?_, hbody, list⟩, rfl⟩
  refine (hparams.mem_toList ?_).isReadable
  rw [parameters_eq_ok listed]
  exact List.mem_map_of_mem member

/-- A function made by `lambda` of operands that have a written form. -/
theorem evalLambda_writable (printable : operands.Printable)
    (run : (m.evalLambda operands env).runFrom w = (.ok a, w')) :
    ∃ header body, a = .value (.closure header body) ∧ header.env = env ∧
      header.Writable body := by
  obtain ⟨params, first, run₁⟩ := EvalM.runFrom_ofExcept_bind_eq_ok run
  obtain ⟨body, others, run₂⟩ := EvalM.runFrom_ofExcept_bind_eq_ok run₁
  obtain ⟨i, _, tail, rfl, rfl⟩ := Value.eq_cons_of_part first
  obtain rfl : tail = body := Except.ok.inj others
  obtain ⟨f, w₁, made, run₃⟩ := EvalM.runFrom_bind_eq_ok run₂
  cases run₃
  obtain ⟨header, rfl, captured, -, writable, -⟩ :=
    writable_of_makeClosure printable.head printable.rest.1 printable.rest.2 made
  exact ⟨header, tail, rfl, captured, writable⟩

/-- A function that `defun` binds, made of operands that have a written form. -/
theorem evalDefun_writable (printable : operands.Printable)
    (run : (m.evalDefun operands env).runFrom w = (.ok a, w')) :
    ∃ name header body, a = .value .nil ∧
      w' = (w.advance 1).bind env name (.closure header body) ∧ header.env = env ∧
      header.Writable body := by
  obtain ⟨target, first, run₁⟩ := EvalM.runFrom_ofExcept_bind_eq_ok run
  obtain ⟨name, -, run₂⟩ := EvalM.runFrom_ofExcept_bind_eq_ok run₁
  obtain ⟨rest, others, run₃⟩ := EvalM.runFrom_ofExcept_bind_eq_ok run₂
  obtain ⟨params, firstRest, run₄⟩ := EvalM.runFrom_ofExcept_bind_eq_ok run₃
  obtain ⟨body, othersRest, run₅⟩ := EvalM.runFrom_ofExcept_bind_eq_ok run₄
  obtain ⟨i, _, _, rfl, rfl⟩ := Value.eq_cons_of_part others
  obtain ⟨j, _, tail, rfl, rfl⟩ := Value.eq_cons_of_part firstRest
  obtain rfl : tail = body := Except.ok.inj othersRest
  have behind := printable.rest.1
  obtain ⟨f, w₁, made, run₆⟩ := EvalM.runFrom_bind_eq_ok run₅
  cases run₆
  obtain ⟨header, rfl, captured, -, writable, rfl⟩ :=
    writable_of_makeClosure behind.head behind.rest.1 behind.rest.2 made
  exact ⟨name, header, tail, rfl, rfl, captured, writable⟩

theorem symbolsFrom_map (index : Nat) (xs : List Symbol) :
    symbolsFrom index (xs.map Value.symbol) = .ok xs := by
  induction xs generalizing index with
  | nil => rfl
  | cons x xs ih =>
    rw [List.map_cons, Value.symbol, symbolsFrom, ih]
    rfl

/-- What an application of a special form gives, its rule gives one level below. -/
theorem rule_of_eval {limits : Limits} {form : SpecialForm} {i : Nat} {ctx : Context}
    (run : (limits.machine.eval (.cons i form.operator operands) env ctx).runFrom w = (.ok a, w')) :
    ∃ m : Machine, (m.evalForm form operands env ctx).runFrom w = (.ok a, w') := by
  obtain ⟨depth, bounces⟩ := limits
  cases depth with
  | zero => cases run
  | succ depth =>
    refine ⟨machine bounces depth, run ▸ ?_⟩
    show _ = ((machine bounces depth).evalExpr (.cons i form.operator operands) env ctx).runFrom w
    rw [Machine.evalExpr, formOf?_operator]

/-- The form that makes a function, evaluated in the frame of the function, makes a copy of it. -/
theorem runFrom_source {header : ClosureHeader} {body : Value} (writable : header.Writable body)
    {limits : Limits} (enough : 0 < limits.depth) (w : World) :
    ∃ (header' : ClosureHeader) (body' : Value) (count : Nat),
      (Session.runDatum limits.machine header.env (header.source body)).runFrom w =
        (.ok (.closure header' body'), w.advance count) ∧
      header'.params = header.params ∧ header'.env = header.env ∧ header'.name = none ∧
      body.Same body' := by
  obtain ⟨depth, bounces⟩ := limits
  obtain ⟨depth, rfl⟩ := Nat.exists_eq_succ_of_ne_zero (Nat.ne_of_gt enough)
  have inside : Datum.ofList (body.toList.map Value.erase) = body.erase :=
    (Value.erase_eq_ofList writable.inside writable.list).symm
  have source : header.source body = .cons (.symbol ⟨"lambda"⟩)
      (.cons (.ofList (header.params.map .symbol)) body.erase) := by
    rw [ClosureHeader.source, Datum.ofList_cons, Datum.ofList_cons, inside]
  obtain ⟨i, j, params, copy, loaded, listed, list, same⟩ : ∃ i j params copy,
      (Value.load (header.source body) w.fresh).1 =
        .cons i SpecialForm.lambda.operator (.cons j params copy) ∧
      params.toList = header.params.map Value.symbol ∧ params.isList = true ∧ body.Same copy := by
    rw [source]
    exact ⟨_, _, _, _, rfl, Value.toList_load_symbols header.params _,
      Datum.isList_load_ofList _ _, writable.inside.same_load _⟩
  let m := machine bounces depth
  let cells := (header.source body).cells
  have load : (EvalM.load (header.source body)).runFrom w =
      (.ok (.cons i SpecialForm.lambda.operator (.cons j params copy)), w.advance cells) := by
    rw [← loaded]
    exact Prod.ext rfl (congrArg (fun fresh => { w with fresh }) (Value.load_snd _ _))
  have parameters : m.parameters params = .ok header.params := by
    rw [Machine.parameters, if_pos list, listed]
    exact symbolsFrom_map 0 header.params
  have made : (m.evalLambda (.cons j params copy) header.env).runFrom (w.advance cells) =
      (.ok (.value (.closure ⟨w.fresh + cells, header.params, header.env, none⟩ copy)),
        w.advance (cells + 1)) := by
    show ((do return Answer.value (← m.makeClosure params copy header.env none)) :
      EvalM Answer).runFrom _ = _
    rw [Machine.makeClosure, parameters]
    rfl
  refine ⟨⟨w.fresh + cells, header.params, header.env, none⟩, copy, cells + 1, ?_, rfl, rfl, rfl,
    same⟩
  rw [Session.runDatum, EvalM.runFrom_bind_ok load]
  exact EvalM.runFrom_bind_ok made _

/-! ## Calls -/

/-- What a call of the first function with some arguments comes to, a call of the second comes to as
well on some more levels: a constant is recognized without a look inside, and a copy of it is
compared element by element. The states in which they end are alike, and so are the results, but for
the name in an error about missing arguments. -/
def CallsAlike (slack : Nat) (w : World) (caller : FrameId) (args : List Value)
    (header : ClosureHeader) (body : Value) (header' : ClosureHeader) (body' : Value) : Prop :=
  ∀ depth bounces r w₁,
    ((Limits.mk depth bounces).machine.call caller (.closure header body) args).Ends w r w₁ →
    ∃ r' w₁' P, ((Limits.mk (depth + slack) bounces).machine.call caller (.closure header' body')
        args).Ends w r' w₁' ∧
      (⟨P, w₁, w₁'⟩ : Joint slack).Good ∧
      (Accepts header args w → Except.Both P.Like r r') ∧
      (¬ Accepts header args w → ∃ count,
        r = .error (.missingArguments (calleeName header.name) count args.length) ∧
        r' = .error (.missingArguments (calleeName header'.name) count args.length))

variable {header header' : ClosureHeader} {body body' : Value} {args : List Value}

/-- Binding looks at the parameters and at the frame in which the function was made. The name is in
the error only. -/
theorem openFrame_renamed (params : header.params = header'.params) (env : header.env = header'.env)
    (args : List Value) (w : World) :
    (Accepts header args w →
      (openFrame header' args).runFrom w = (openFrame header args).runFrom w) ∧
    (¬ Accepts header args w → ∃ count u,
      (openFrame header args).runFrom w = (.error (.error
        (.missingArguments (calleeName header.name) count args.length)), u) ∧
      (openFrame header' args).runFrom w = (.error (.error
        (.missingArguments (calleeName header'.name) count args.length)), u)) := by
  obtain ⟨named, rest, splits⟩ := Symbol.exists_splits header.params
  have splits' : Symbol.Splits named rest header'.params := params ▸ splits
  rw [accepts_iff splits, Nat.not_le, runFrom_openFrame splits, runFrom_openFrame splits']
  refine ⟨fun enough => ?_, fun short => ⟨requiredCount header.params, _, if_pos short, ?_⟩⟩
  · have long := Nat.not_lt_of_le enough
    simp only [if_neg long, env]
  · rw [params, env]
    exact if_pos short

/-- The name of a function makes no difference to a call, but in the error about missing
arguments. -/
theorem runChain_renamed (params : header.params = header'.params) (env : header.env = header'.env)
    (args : List Value) (w : World) (caller : FrameId) (bounces : Nat) :
    (Accepts header args w → ∀ (m : Machine) body,
      (m.runChain caller (bounces + 1) (.closure header' body) args).runFrom w =
        (m.runChain caller (bounces + 1) (.closure header body) args).runFrom w) ∧
    (¬ Accepts header args w → ∃ count u, ∀ (m : Machine) body,
      (m.runChain caller (bounces + 1) (.closure header body) args).runFrom w = (.error (.error
        (.missingArguments (calleeName header.name) count args.length)), u) ∧
      (m.runChain caller (bounces + 1) (.closure header' body) args).runFrom w = (.error (.error
        (.missingArguments (calleeName header'.name) count args.length)), u)) := by
  obtain ⟨renamed, refused⟩ := openFrame_renamed params env args w
  refine ⟨fun accepted m body => ?_, fun refusal => ?_⟩
  · exact EvalM.runFrom_bind_congr (EvalM.runFrom_bind_congr (renamed accepted) _) _
  · obtain ⟨count, u, failed, failed'⟩ := refused refusal
    exact ⟨count, u, fun m body =>
      ⟨EvalM.runFrom_bind_error (EvalM.runFrom_bind_error failed _) _,
        EvalM.runFrom_bind_error (EvalM.runFrom_bind_error failed' _) _⟩⟩

/-- Behind the same header, bodies that are data of the same shape are called alike. -/
theorem runChain_mirrors_of_same {slack : Nat}
    (coherent : w.Coherent (.closure header body :: .closure header' body' :: args))
    (plain : body.Plain slack) (same : body.Same body') (caller : FrameId) (depth bounces : Nat) :
    (coherent.joint slack).Mirrors
      ((machine (bounces + 1) depth).runChain caller (bounces + 1) (.closure header body) args)
      ((machine (bounces + 1) (depth + slack)).runChain caller (bounces + 1)
        (.closure header body') args) fun P => P.Like := by
  have good := coherent.good slack
  have inside : (coherent.pairing slack).Like body body' := by
    refine coherent.like_of_same plain same (fun u within => ?_) fun u within => ?_
    · exact .inl ⟨_, List.mem_cons_self, by simp [Value.parts, within]⟩
    · exact .inl ⟨_, List.mem_cons_of_mem _ List.mem_cons_self, by simp [Value.parts, within]⟩
  have arguments : (coherent.pairing slack).LikeAll args args := List.forall₂_same.2 fun a member =>
    coherent.like_of_mem (List.mem_cons_of_mem _ (List.mem_cons_of_mem _ member))
  have mirrored := mirrored_machine slack (bounces + 1) depth
  exact mirrored.runChain_succ caller bounces (mirrored.runBody good rfl rfl rfl inside arguments)

/-- Functions with the same parameters and frames, the bodies of which are data of the same shape,
are called alike, given the levels it takes to look through the bodies. -/
theorem callsAlike_of_same {slack : Nat}
    (coherent : w.Coherent (.closure header body :: .closure header' body' :: args))
    (params : header.params = header'.params) (env : header.env = header'.env)
    (plain : body.Plain slack) (same : body.Same body') (caller : FrameId) :
    CallsAlike slack w caller args header body header' body' := by
  intro depth bounces r w₁ ended
  -- bounds that let no call be made end nothing
  cases depth with
  | zero => exact absurd ⟨_, w, .inl rfl, rfl⟩ ended.not_exhausts
  | succ depth =>
  cases bounces with
  | zero => exact absurd ⟨_, w, .inr rfl, rfl⟩ ended.not_exhausts
  | succ bounces =>
  have mirrors := runChain_mirrors_of_same coherent plain same caller depth bounces
  rcases mirrors with ⟨-, exhausted⟩ | ⟨r₀, r₀', ⟨P, u, u'⟩, run, run', later, both⟩
  · exact absurd exhausted ended.not_exhausts
  obtain ⟨rfl, rfl⟩ := Prod.mk.inj (run.symm.trans ended.1)
  obtain ⟨renamed, refused⟩ := runChain_renamed params env args w caller bounces
  rw [Nat.succ_add]
  by_cases accepted : Accepts header args w
  · obtain ⟨r', ended', alike⟩ := ended.exists_of_both ((renamed accepted _ body').trans run') both
    exact ⟨r', u', P, ended', later.good, fun _ => alike, fun refusal => absurd accepted refusal⟩
  · obtain ⟨count, v, fails⟩ := refused accepted
    obtain ⟨failed, -⟩ := fails (machine (bounces + 1) depth) body
    obtain ⟨failed₁, failed₂⟩ := fails (machine (bounces + 1) (depth + slack)) body'
    obtain ⟨shown, rfl⟩ := Prod.mk.inj (failed.symm.trans run)
    obtain ⟨-, rfl⟩ := Prod.mk.inj (failed₁.symm.trans run')
    obtain rfl : r = .error (.missingArguments (calleeName header.name) count args.length) := by
      cases r with
      | error e => cases shown; rfl
      | ok v => cases shown
    refine ⟨.error (.missingArguments (calleeName header'.name) count args.length), _, P,
      ⟨failed₂, fun exhausted => ?_⟩, later.good, fun yes => absurd yes accepted,
      fun _ => ⟨count, rfl, rfl⟩⟩
    cases exhausted

/-- A printed function is source for the same function. What `lambda` and `defun` make of
expressions that have been read, floats apart, has parameters and a body with a written form. Any
such function is printed as the `lambda` form that makes it, which is read back as that one form.
Evaluated in the frame of the function, the form changes nothing and makes a function with the same
parameters and the same frame and with a copy of the body, without a name. From then on, calls of
the one function come out like calls of the other, as long as states are coherent, and evaluation
and calls keep them so. -/
theorem printed_closure_is_source :
    (∀ source ds, Datum.readAll source = .ok ds → ∀ d ∈ ds, d.FloatFree →
      ∀ id, ∀ e ∈ (Value.load d id).1.parts, ∀ (limits : Limits) env ctx w a w',
        (limits.machine.eval e env ctx).runFrom w = (.ok a, w') →
        (∀ i operands, e = .cons i SpecialForm.lambda.operator operands →
          ∃ header body, a = .value (.closure header body) ∧ header.env = env ∧
            header.Writable body) ∧
        ∀ i operands, e = .cons i SpecialForm.defun.operator operands →
          ∃ name header body, w' = (w.advance 1).bind env name (.closure header body) ∧
            header.env = env ∧ header.Writable body) ∧
    (∀ (header : ClosureHeader) body, header.Writable body →
      (∃ n, ∀ levels, n ≤ levels → ∃ text, (Value.closure header body).text levels = .ok text ∧
        Datum.readAll text = .ok [header.source body]) ∧
      ∀ (limits : Limits) w, 0 < limits.depth →
      ∃ (header' : ClosureHeader) (body' : Value) (count : Nat),
        (Session.runDatum limits.machine header.env (header.source body)).runFrom w =
          (.ok (.closure header' body'), w.advance count) ∧
        header'.params = header.params ∧ header'.env = header.env ∧ header'.name = none ∧
        body.Same body' ∧
        (∀ vs, w.Coherent (.closure header body :: vs) →
          (w.advance count).Coherent (.closure header' body' :: .closure header body :: vs)) ∧
        ∀ later args, later.Coherent (.closure header' body' :: .closure header body :: args) →
          ∀ slack caller, body.nesting < slack →
            CallsAlike slack later caller args header body header' body' ∧
            CallsAlike slack later caller args header' body' header body) ∧
    (∀ w vs, w.Coherent vs → ∀ limits : Limits,
      (∀ env d, ((Session.runDatum limits.machine env d).runFrom w).2.Coherent vs ∧
        ∀ v, ((Session.runDatum limits.machine env d).runFrom w).1 = .ok v →
          ((Session.runDatum limits.machine env d).runFrom w).2.Coherent (v :: vs)) ∧
      ∀ caller, ∀ fn ∈ vs, ∀ args ⊆ vs,
        ((limits.machine.call caller fn args).runFrom w).2.Coherent vs ∧
        ∀ v, ((limits.machine.call caller fn args).runFrom w).1 = .ok v →
          ((limits.machine.call caller fn args).runFrom w).2.Coherent (v :: vs)) ∧
    ∀ w, Session.Reachable w → w.Coherent [] := by
  refine ⟨?_, fun header body writable => ⟨writable.readAll_text, fun limits w enough => ?_⟩,
    fun w vs coherent limits => ⟨?_, ?_⟩, fun w reached => reached.coherent⟩
  · intro source ds read d member floatFree id e inside limits env ctx w a w' run
    have printable : e.Printable :=
      (Datum.printable_of_readAll read d member floatFree id).of_mem_parts inside
    constructor
    · rintro i operands rfl
      obtain ⟨m, made⟩ := rule_of_eval run
      exact evalLambda_writable printable.rest.1 made
    · rintro i operands rfl
      obtain ⟨m, made⟩ := rule_of_eval run
      obtain ⟨name, header, body, -, state, captured, writable⟩ :=
        evalDefun_writable printable.rest.1 made
      exact ⟨name, header, body, state, captured, writable⟩
  · obtain ⟨header', body', count, run, params, env, name, same⟩ :=
      runFrom_source writable enough w
    refine ⟨header', body', count, run, params, env, name, same, fun vs coherent => ?_,
      fun later args coherent slack caller shallow => ?_⟩
    · have kept := (Session.coherent_runDatum coherent limits header.env (header.source body)).2
      rw [run] at kept
      exact kept _ rfl
    · have plain : body.Plain slack := ⟨writable.inside.isData, shallow⟩
      refine ⟨?_, callsAlike_of_same coherent params env (plain.of_same same) same.symm caller⟩
      refine callsAlike_of_same (coherent.mono ?_) params.symm env.symm plain same caller
      intro v member
      simp only [List.mem_cons] at member ⊢
      exact or_left_comm.1 member
  · exact fun env d => Session.coherent_runDatum coherent limits env d
  · exact fun caller fn function args arguments =>
      coherent.call limits caller function arguments

/-- A function with a rest marker and a quoted list in its body. Its text is read back, the form
makes a function with a written form, and a call of the copy gives the first argument, as a call of
the function does. -/
theorem printed_closure_is_source_quoted :
    let x : Symbol := ⟨"x"⟩
    let quoted := Value.ofList 3 [.symbol .quote, Value.ofList 1 [.symbol x, .nil]]
    let header : ClosureHeader := ⟨0, [x, .ellipsis], 0, some ⟨"f"⟩⟩
    let body := Value.ofList 5 [quoted, .symbol x]
    let one := Value.number (.int 1)
    let w : World := ⟨⟨#[⟨none, []⟩]⟩, 7, #[]⟩
    header.Writable body ∧
      (∃ text made w', Datum.readAll text = .ok [header.source body] ∧
        ((Limits.mk 1 0).machine.eval (Value.load (header.source body) 7).1 0
          Context.topLevel).runFrom w = (.ok (.value made), w') ∧
        ∃ header' body', made = .closure header' body' ∧ header'.Writable body') ∧
      ∃ header' body' count,
        (Session.runDatum (Limits.mk 1 0).machine 0 (header.source body)).runFrom w =
          (.ok (.closure header' body'), w.advance count) ∧
        ∃ limits : Limits, ((limits.machine.call 0 (.closure header' body') [one]).runFrom
          (w.advance count)).1 = .ok one := by
  intro x quoted header body one w
  have readable : Symbol.IsReadable x :=
    Symbol.isReadable_of_isWordChar (by decide) (by decide) (by decide) (by decide)
  have dots : Symbol.IsReadable .ellipsis :=
    Symbol.isReadable_of_isWordChar (by decide) (by decide) (by decide) (by decide)
  have inner : (Value.ofList 1 [.symbol x, .nil]).Printable :=
    .cons (.symbol readable) (.cons .nil .nil rfl) rfl
  have first : quoted.Printable := .cons (.symbol Datum.isReadable_quote) (.cons inner .nil rfl) rfl
  have writable : header.Writable body := by
    refine ⟨fun y member => ?_, .cons first (.cons (.symbol readable) .nil rfl) rfl, rfl⟩
    simp only [header, List.mem_cons, List.not_mem_nil, or_false] at member
    rcases member with rfl | rfl
    · exact readable
    · exact dots
  obtain ⟨made, functions, -, -⟩ := printed_closure_is_source
  obtain ⟨⟨n, reads⟩, copies⟩ := functions header body writable
  obtain ⟨text, -, read⟩ := reads n (Nat.le_refl n)
  obtain ⟨header', body', count, run, -, -, -, -, kept, called⟩ := copies ⟨1, 0⟩ w (by decide)
  refine ⟨writable, ⟨text, _, _, read, rfl, ?_⟩, header', body', count, run, ⟨6, 1⟩, ?_⟩
  · have free : (header.source body).FloatFree := by
      simp [ClosureHeader.source, Datum.ofList_cons, Datum.symbol, Datum.FloatFree, header, body,
        quoted, Value.ofList, Value.consAll, Value.symbol, Value.erase]
    obtain ⟨lambdas, -⟩ := made text _ read _ List.mem_cons_self free 7 _ (Value.self_mem_parts _)
      ⟨1, 0⟩ 0 Context.topLevel w _ _ rfl
    obtain ⟨header', body', same, -, writable'⟩ := lambdas _ _ rfl
    exact ⟨header', body', Answer.value.inj same, writable'⟩
  · have coherent : w.Coherent [.closure header body, one] := by
      refine World.coherent_of_parts [.closure header body, one] (fun u here => ?_) (by decide)
        (by decide)
      rcases here with ⟨v, member, inside⟩ | ⟨g, frame, there, entry, bound, -⟩
      · exact List.mem_flatMap.2 ⟨v, member, inside⟩
      · cases g with
        | zero => cases there; cases bound
        | succ g => cases there
    have ended : ((Limits.mk 2 1).machine.call 0 (.closure header body) [one]).Ends
        (w.advance count) (.ok one) _ := ⟨rfl, fun exhausted => by cases exhausted⟩
    obtain ⟨forward, -⟩ := called (w.advance count) [one] (kept [one] coherent) 4 0 (by decide)
    obtain ⟨r', w₁', P, ⟨ended', -⟩, -, alike, -⟩ := forward 2 1 _ _ ended
    have accepted : Accepts header [one] (w.advance count) := ⟨_, _, rfl⟩
    cases alike accepted with
    | ok same =>
      change P.Like (.atom (.number (.int 1))) _ at same
      cases same
      exact congrArg Prod.fst ended'

end Machine

end SmallLisp
