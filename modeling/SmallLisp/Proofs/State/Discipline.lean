import SmallLisp.Proofs.Eval.Bounds
import SmallLisp.Proofs.Eval.Operands

/-!
# Disciplines

What evaluation keeps of the state is said by a discipline: which states are good, which values and
expressions are admitted in them, and what may change while an expression is evaluated in a frame.
A discipline looks at two states in which the same run starts, so that it can also say how far the
run depends on the state; taken with both states the same, it speaks about one run. Main statement:
runs that keep a discipline can be put one after the other (`Keeps.bind`).
-/

namespace SmallLisp

namespace World

/-- The state with a symbol bound in a frame. -/
def bind (w : World) (f : FrameId) (x : Symbol) (v : Value) : World :=
  { w with heap := w.heap.define f x v }

/-- The state with one frame more. -/
def extend (w : World) (outer : Option FrameId) : World := { w with heap := w.heap.extend outer }

theorem size_lt_extend (w : World) (outer : Option FrameId) :
    w.heap.size < (w.extend outer).heap.size :=
  Nat.lt_of_lt_of_eq (Nat.lt_succ_self _) (Heap.size_extend w.heap outer).symm

/-- The state with so many identities taken. -/
def advance (w : World) (count : Nat) : World := { w with fresh := w.fresh + count }

/-- The state with one text more printed. -/
def print (w : World) (text : String) : World := { w with printed := w.printed.push text }

end World

/-- Two states in which the same run starts. -/
structure Twin where
  left : World
  right : World

namespace Twin

/-- The same step in both states. -/
def map (f : World → World) (s : Twin) : Twin := ⟨f s.left, f s.right⟩

/-- A state beside itself. -/
def same (w : World) : Twin := ⟨w, w⟩

theorem size_le_refl (_ : Option FrameId) (s : Twin) : s.left.heap.size ≤ s.left.heap.size :=
  Nat.le_refl _

theorem size_le_trans {_ : Option FrameId} {s s' s'' : Twin}
    (first : s.left.heap.size ≤ s'.left.heap.size)
    (second : s'.left.heap.size ≤ s''.left.heap.size) : s.left.heap.size ≤ s''.left.heap.size :=
  Nat.le_trans first second

end Twin

/-- What evaluation may rely on and has to keep. -/
structure Discipline where
  Good : Twin → Prop
  /-- The frames in which evaluation may take place. -/
  Frame : Twin → FrameId → Prop
  /-- The symbols that evaluation may bind and look up. -/
  Name : Symbol → Prop
  /-- The expressions that may be evaluated. -/
  Code : Twin → Value → Prop
  /-- The rows of operands and bodies of which each expression may be evaluated. -/
  Operands : Twin → Value → Prop
  /-- The values that evaluation may come upon. -/
  Held : Twin → Value → Prop
  /-- What may change while an expression is evaluated in a frame, or, without a frame, while a
  function is called. -/
  Change : Option FrameId → Twin → Twin → Prop
  change_refl : ∀ own s, Change own s s
  change_trans : ∀ {own s s' s''}, Change own s s' → Change own s' s'' → Change own s s''
  change_of_call : ∀ {own s s'}, Change none s s' → Change own s s'
  frame_later : ∀ {own s s' f}, Change own s s' → Frame s f → Frame s' f
  code_later : ∀ {own s s' e}, Change own s s' → Code s e → Code s' e
  operands_later : ∀ {own s s' e}, Change own s s' → Operands s e → Operands s' e
  held_later : ∀ {own s s' v}, Change own s s' → Held s v → Held s' v
  name_of_code : ∀ {s x}, Code s (.symbol x) → Name x
  code_parts : ∀ {s id head rest}, Code s (.cons id head rest) → Code s head ∧ Operands s rest
  operands_parts : ∀ {s id head rest}, Operands s (.cons id head rest) →
    Code s head ∧ Operands s rest
  held_of_code : ∀ {s e}, Code s e → Held s e
  held_nil : ∀ s, Held s .nil
  held_atom : ∀ s a, Held s (.atom a)
  held_builtin : ∀ s op, Held s (.builtin op)
  held_cons : ∀ {s id head rest}, Held s head → Held s rest → rest.isList = true →
    Held s (.cons id head rest)
  held_parts : ∀ {s id head rest}, Held s (.cons id head rest) → Held s head ∧ Held s rest
  held_closure_iff : ∀ {s header body}, Held s (.closure header body) ↔
    Frame s header.env ∧ (∀ x ∈ header.params, Name x) ∧ Operands s body
  lookup : ∀ {s env x}, Good s → Frame s env → Name x →
    s.left.heap.lookup? env x = s.right.heap.lookup? env x ∧
      ∀ v, s.left.heap.lookup? env x = some v → Held s v
  define : ∀ {s env x v}, Good s → Frame s env → Name x → Held s v →
    Good (s.map (·.bind env x v)) ∧ Change (some env) s (s.map (·.bind env x v))
  /-- Only the form `set` assigns. -/
  assign : ∀ {s env x v id keyword operands}, Good s → Frame s env →
    SpecialForm.ofSymbol? keyword = some .set → Code s (.cons id (.symbol keyword) operands) →
    Name x → Held s v →
    s.left.heap.find? env x = s.right.heap.find? env x ∧
      ∀ owner, s.left.heap.find? env x = some owner →
        Good (s.map (·.bind owner x v)) ∧ Change (some env) s (s.map (·.bind owner x v))
  /-- What evaluation does to a frame that it has just made is no change of what was there. -/
  newFrame : ∀ {s outer}, Good s → Frame s outer →
    s.left.heap.size = s.right.heap.size ∧ Good (s.map (·.extend (some outer))) ∧
      Frame (s.map (·.extend (some outer))) s.left.heap.size ∧
      ∀ s', Change (some s.left.heap.size) (s.map (·.extend (some outer))) s' → Change none s s'
  newIds : ∀ {s}, Good s → s.left.fresh = s.right.fresh ∧
    ∀ count, Good (s.map (·.advance count)) ∧ Change none s (s.map (·.advance count))
  print : ∀ {s}, Good s → ∀ text,
    Good (s.map (·.print text)) ∧ Change none s (s.map (·.print text))

namespace Discipline

variable {D : Discipline} {α β : Type} {own : Option FrameId} {s s' s'' : Twin}

/-- A good state after a change that is allowed. -/
structure Later (D : Discipline) (own : Option FrameId) (s s' : Twin) : Prop where
  good : D.Good s'
  change : D.Change own s s'

namespace Later

theorem trans (h : D.Later own s s') (h' : D.Later own s' s'') : D.Later own s s'' :=
  ⟨h'.good, D.change_trans h.change h'.change⟩

theorem frame (h : D.Later own s s') {f : FrameId} (hf : D.Frame s f) : D.Frame s' f :=
  D.frame_later h.change hf

theorem code (h : D.Later own s s') {e : Value} (he : D.Code s e) : D.Code s' e :=
  D.code_later h.change he

theorem operands (h : D.Later own s s') {e : Value} (he : D.Operands s e) : D.Operands s' e :=
  D.operands_later h.change he

theorem held (h : D.Later own s s') {v : Value} (hv : D.Held s v) : D.Held s' v :=
  D.held_later h.change hv

theorem codeAll (h : D.Later own s s') {es : List Value} (hes : ∀ e ∈ es, D.Code s e) :
    ∀ e ∈ es, D.Code s' e := fun e mem => h.code (hes e mem)

theorem heldAll (h : D.Later own s s') {vs : List Value} (hvs : ∀ v ∈ vs, D.Held s v) :
    ∀ v ∈ vs, D.Held s' v := fun v mem => h.held (hvs v mem)

end Later

theorem codeAll_of_operands {v : Value} (h : D.Operands s v) : ∀ e ∈ v.toList, D.Code s e := by
  induction v with
  | cons id head rest _ ih =>
    rw [Value.toList_cons, List.forall_mem_cons]
    exact ⟨(D.operands_parts h).1, ih (D.operands_parts h).2⟩
  | _ => exact fun _ mem => nomatch mem

theorem codeAll_toList {v : Value} (h : D.Code s v) : ∀ e ∈ v.toList, D.Code s e := by
  cases v with
  | cons id head rest =>
    rw [Value.toList_cons, List.forall_mem_cons]
    exact ⟨(D.code_parts h).1, codeAll_of_operands (D.code_parts h).2⟩
  | _ => exact fun _ mem => nomatch mem

theorem heldAll_toList {v : Value} (h : D.Held s v) : ∀ e ∈ v.toList, D.Held s e := by
  induction v with
  | cons id head rest _ ih =>
    rw [Value.toList_cons, List.forall_mem_cons]
    exact ⟨(D.held_parts h).1, ih (D.held_parts h).2⟩
  | _ => exact fun _ mem => nomatch mem

theorem held_consAll {items : List Value} (hitems : ∀ v ∈ items, D.Held s v) {rest : Value}
    (hrest : D.Held s rest) (list : rest.isList = true) (id : Nat) :
    D.Held s (Value.consAll id rest items) := by
  induction items generalizing id rest with
  | nil => exact hrest
  | cons v items ih =>
    rw [List.forall_mem_cons] at hitems
    exact ih hitems.2 (D.held_cons hitems.1 hrest list) rfl (id + 1)

theorem held_ofList {items : List Value} (h : ∀ v ∈ items, D.Held s v) (id : Nat) :
    D.Held s (Value.ofList id items) :=
  held_consAll (fun v mem => h v (List.mem_reverse.1 mem)) (D.held_nil s) rfl id

theorem code_head {operands e : Value} {levels : Nat} (found : operands.car levels = .ok e)
    (h : D.Operands s operands) : D.Code s e := by
  obtain ⟨id, head, rest, rfl, rfl⟩ := Value.eq_cons_of_part found
  exact (D.operands_parts h).1

theorem operands_rest {operands rest : Value} {levels : Nat}
    (found : operands.cdr levels = .ok rest) (h : D.Operands s operands) : D.Operands s rest := by
  obtain ⟨id, head, rest, rfl, rfl⟩ := Value.eq_cons_of_part found
  exact (D.operands_parts h).2

theorem held_part {v part : Value} {levels : Nat} {p : ListPart}
    (found : v.part levels p = .ok part) (h : D.Held s v) : D.Held s part := by
  obtain ⟨id, head, rest, rfl, taken⟩ := Value.eq_cons_of_part found
  cases p with
  | head => exact taken ▸ (D.held_parts h).1
  | rest => exact taken ▸ (D.held_parts h).2

/-- The run does the same from both states, keeps them good, changes only what may change, and its
result is as said. -/
def Keeps (D : Discipline) (own : Option FrameId) (s : Twin) (x : EvalM α)
    (post : Twin → α → Prop) : Prop :=
  ∃ r s', x.runFrom s.left = (r, s'.left) ∧ x.runFrom s.right = (r, s'.right) ∧
    D.Later own s s' ∧ ∀ a, r = .ok a → post s' a

namespace Keeps

variable {x : EvalM α} {f : α → EvalM β} {post : Twin → α → Prop} {post' : Twin → β → Prop}

theorem pure (good : D.Good s) {a : α} (h : post s a) : D.Keeps own s (pure a) post :=
  ⟨.ok a, s, rfl, rfl, ⟨good, D.change_refl own s⟩, fun _ eq => by cases eq; exact h⟩

theorem stop (good : D.Good s) (stop : Stop) : D.Keeps own s (throw stop) post :=
  ⟨.error stop, s, rfl, rfl, ⟨good, D.change_refl own s⟩, fun _ eq => nomatch eq⟩

theorem of_call (h : D.Keeps none s x post) : D.Keeps own s x post := by
  obtain ⟨r, s', left, right, later, result⟩ := h
  exact ⟨r, s', left, right, ⟨later.good, D.change_of_call later.change⟩, result⟩

theorem imp (h : D.Keeps own s x post) {weaker : Twin → α → Prop}
    (le : ∀ s' a, post s' a → weaker s' a) : D.Keeps own s x weaker := by
  obtain ⟨r, s', left, right, later, result⟩ := h
  exact ⟨r, s', left, right, later, fun a eq => le s' a (result a eq)⟩

theorem bind (h : D.Keeps own s x post)
    (next : ∀ s' a, D.Later own s s' → post s' a → D.Keeps own s' (f a) post') :
    D.Keeps own s (x >>= f) post' := by
  obtain ⟨r, s', left, right, later, result⟩ := h
  cases r with
  | error stop =>
    have stopped := EvalM.runFrom_bind_error left f
    have stopped' := EvalM.runFrom_bind_error right f
    exact ⟨.error stop, s', stopped, stopped', later, fun _ eq => nomatch eq⟩
  | ok a =>
    obtain ⟨r, s'', left', right', later', result'⟩ := next s' a later (result a rfl)
    have goesOn := (EvalM.runFrom_bind_ok left f).trans left'
    have goesOn' := (EvalM.runFrom_bind_ok right f).trans right'
    exact ⟨r, s'', goesOn, goesOn', later.trans later', result'⟩

/-- What a discipline says of one run, however the run ends. -/
theorem later_runFrom {w : World} (h : D.Keeps own (.same w) x post) :
    ∃ s', (x.runFrom w).2 = s'.left ∧ D.Later own (.same w) s' := by
  obtain ⟨r, s', left, -, later, -⟩ := h
  exact ⟨s', congrArg Prod.snd left, later⟩

/-- What is computed without the state leaves it alone. -/
theorem part_bind (good : D.Good s) {part : Except Error α}
    (next : ∀ a, part = .ok a → D.Keeps own s (f a) post') :
    D.Keeps own s (EvalM.ofExcept part >>= f) post' := by
  cases part with
  | error e => exact stop good (.error e)
  | ok a => exact next a rfl

theorem lookup (good : D.Good s) {env : FrameId} (frame : D.Frame s env) {x : Symbol}
    (name : D.Name x) : D.Keeps own s (EvalM.lookup env x) D.Held := by
  obtain ⟨same, held⟩ := D.lookup good frame name
  cases found : s.left.heap.lookup? env x with
  | some v =>
    refine ⟨.ok v, s, EvalM.runFrom_lookup_of_some found, ?_, ⟨good, D.change_refl own s⟩,
      fun _ eq => ?_⟩
    · exact EvalM.runFrom_lookup_of_some (same.symm.trans found)
    · cases eq
      exact held v found
  | none =>
    refine ⟨_, s, EvalM.runFrom_lookup_of_none found, ?_, ⟨good, D.change_refl own s⟩,
      fun _ eq => ?_⟩
    · exact EvalM.runFrom_lookup_of_none (same.symm.trans found)
    · cases eq

theorem define (good : D.Good s) {env : FrameId} (frame : D.Frame s env) {x : Symbol}
    (name : D.Name x) {v : Value} (held : D.Held s v) :
    D.Keeps (some env) s (EvalM.define env x v) fun _ _ => True :=
  have kept := D.define good frame name held
  ⟨.ok (), s.map (·.bind env x v), rfl, rfl, ⟨kept.1, kept.2⟩, fun _ _ => trivial⟩

theorem assign (good : D.Good s) {env : FrameId} (frame : D.Frame s env) {id : Nat}
    {keyword : Symbol} {operands : Value} (set : SpecialForm.ofSymbol? keyword = some .set)
    (code : D.Code s (.cons id (.symbol keyword) operands)) {x : Symbol} (name : D.Name x)
    {v : Value} (held : D.Held s v) :
    D.Keeps (some env) s (EvalM.assign env x v) fun _ _ => True := by
  obtain ⟨same, kept⟩ := D.assign good frame set code name held
  cases found : s.left.heap.find? env x with
  | some owner =>
    refine ⟨.ok owner, s.map (·.bind owner x v), EvalM.runFrom_assign_of_some found v, ?_,
      ⟨(kept owner found).1, (kept owner found).2⟩, fun _ _ => trivial⟩
    exact EvalM.runFrom_assign_of_some (same.symm.trans found) v
  | none =>
    refine ⟨_, s, EvalM.runFrom_assign_of_none found v, ?_, ⟨good, D.change_refl _ s⟩,
      fun _ eq => ?_⟩
    · exact EvalM.runFrom_assign_of_none (same.symm.trans found) v
    · cases eq

/-- What a run does in a frame that it makes is seen from outside as what a call does. -/
theorem newFrame_bind (good : D.Good s) {outer : FrameId} (frame : D.Frame s outer)
    {g : FrameId → EvalM β}
    (next : ∀ s' f, D.Later none s s' → D.Frame s' f → D.Keeps (some f) s' (g f) post') :
    D.Keeps none s (EvalM.newFrame (some outer) >>= g) post' := by
  obtain ⟨size, good', made, inside⟩ := D.newFrame good frame
  have later : D.Later none s (s.map (·.extend (some outer))) :=
    ⟨good', inside _ (D.change_refl _ _)⟩
  obtain ⟨r, s', left, right, later', result⟩ := next _ _ later made
  refine ⟨r, s', left, ?_, ⟨later'.good, inside s' later'.change⟩, result⟩
  rw [size] at right
  exact right

theorem newId (good : D.Good s) : D.Keeps own s EvalM.newId fun _ _ => True := by
  obtain ⟨same, kept⟩ := D.newIds good
  refine ⟨.ok s.left.fresh, s.map (·.advance 1), rfl, ?_,
    ⟨(kept 1).1, D.change_of_call (kept 1).2⟩, fun _ _ => trivial⟩
  rw [same]
  rfl

theorem newCell (good : D.Good s) {head rest : Value} (hhead : D.Held s head)
    (hrest : D.Held s rest) (list : rest.isList = true) :
    D.Keeps own s (EvalM.newCell head rest) D.Held :=
  (newId good).bind fun _ _ later _ =>
    pure later.good (D.held_cons (later.held hhead) (later.held hrest) list)

theorem newList (good : D.Good s) {items : List Value} (h : ∀ v ∈ items, D.Held s v) :
    D.Keeps own s (EvalM.newList items) D.Held := by
  obtain ⟨same, kept⟩ := D.newIds good
  have later : D.Later own s (s.map (·.advance items.length)) :=
    ⟨(kept _).1, D.change_of_call (kept _).2⟩
  refine ⟨.ok (Value.ofList s.left.fresh items), _, rfl, ?_, later, fun _ eq => ?_⟩
  · rw [same]
    rfl
  · cases eq
    exact held_ofList (later.heldAll h) _

theorem emit (good : D.Good s) (text : String) :
    D.Keeps own s (EvalM.emit text) fun _ _ => True :=
  have kept := D.print good text
  ⟨.ok (), s.map (·.print text), rfl, rfl, ⟨kept.1, D.change_of_call kept.2⟩, fun _ _ => trivial⟩

end Keeps

end Discipline

end SmallLisp
