import SmallLisp.Proofs.State.Frames
import SmallLisp.Proofs.State.Respects

/-!
# Programs that do not assign

Only the form `set` changes a binding in a frame that evaluation has not been given or made. If
`set` heads no list in an expression or in the functions that it may come upon, evaluation leaves
all frames as they are, the one that it takes place in aside, and makes no function in which `set`
heads a list. Main statements: evaluation keeps what such programs may rely on
(`unassigningDiscipline`), and so neither expressions nor calls disturb what is there
(`frames_undisturbed`).
-/

namespace SmallLisp

namespace Value

mutual

/-- A list that `set` heads stands in the expression, at whatever depth, or in the body of a
function in it. -/
def Assigns : Value → Prop
  | .cons _ head rest => head = SpecialForm.set.operator ∨ head.Assigns ∨ rest.ItemsAssign
  | .closure _ body => body.ItemsAssign
  | _ => False

/-- A list that `set` heads stands in one of the elements. -/
def ItemsAssign : Value → Prop
  | .cons _ head rest => head.Assigns ∨ rest.ItemsAssign
  | .closure _ body => body.ItemsAssign
  | _ => False

end

/-- A function in the value has such a list in its body. Where the list is mere data, it assigns
nothing. -/
def CodeAssigns : Value → Prop
  | .cons _ head rest => head.CodeAssigns ∨ rest.CodeAssigns
  | .closure _ body => body.ItemsAssign
  | _ => False

theorem Assigns.of_items {v : Value} (h : v.ItemsAssign) : v.Assigns := by
  cases v with
  | cons id head rest => exact .inr h
  | closure header body => exact h
  | _ => exact h.elim

theorem CodeAssigns.items {v : Value} (h : v.CodeAssigns) : v.ItemsAssign := by
  induction v with
  | cons id head rest ihHead ihRest => exact h.imp (fun found => .of_items (ihHead found)) ihRest
  | closure header body => exact h
  | _ => exact h.elim

end Value

/-- A function that may be run with the answer assigns. -/
def Answer.CodeAssigns : Answer → Prop
  | .value v => v.CodeAssigns
  | .pending fn args => ∃ v ∈ fn :: args, v.CodeAssigns

/-- All frames are there still, and all but `own` are as they were: they hang off the same frames
and bind the same names to the same values, in the same order. -/
def Heap.Undisturbed (own : Option FrameId) (h h' : Heap) : Prop :=
  ∀ g frame, h.frame? g = some frame → own ≠ some g → h'.frame? g = some frame

namespace Heap.Undisturbed

variable {own : Option FrameId} {h h' h'' : Heap}

theorem refl (own : Option FrameId) (h : Heap) : Undisturbed own h h := fun _ _ there _ => there

theorem trans (first : Undisturbed own h h') (second : Undisturbed own h' h'') :
    Undisturbed own h h'' :=
  fun g frame there other => second g frame (first g frame there other) other

theorem of_none (kept : Undisturbed none h h') : Undisturbed own h h' :=
  fun g frame there _ => kept g frame there nofun

theorem define (h : Heap) (f : FrameId) (x : Symbol) (v : Value) :
    Undisturbed (some f) h (h.define f x v) := by
  intro g frame there other
  have elsewhere : f ≠ g := fun same => other (congrArg some same)
  rw [frame?_define, if_neg elsewhere, there]

/-- A frame that has just been made is none of those that were there. -/
theorem of_extend {outer : Option FrameId}
    (inside : Undisturbed (some h.size) (h.extend outer) h') : Undisturbed none h h' := by
  intro g frame there _
  have older : g ≠ h.size := Nat.ne_of_lt (lt_size_of_frame? there)
  refine inside g frame ?_ fun same => older (Option.some.inj same).symm
  rw [frame?_extend, if_neg older, there]

end Heap.Undisturbed

/-- No function that is bound, or stands in a value that is, assigns. -/
def World.Unassigning (w : World) : Prop :=
  ∀ f frame, w.heap.frame? f = some frame → ∀ entry ∈ frame.bindings, ¬ entry.2.CodeAssigns

/-- The discipline of runs that come upon no code that assigns. -/
def unassigningDiscipline : Discipline where
  Good s := s.left = s.right ∧ s.left.Unassigning
  Frame _ _ := True
  Name _ := True
  Code _ e := ¬ e.Assigns
  Operands _ e := ¬ e.ItemsAssign
  Held _ v := ¬ v.CodeAssigns
  Change own s s' := s.left.heap.Undisturbed own s'.left.heap
  change_refl own s := .refl own s.left.heap
  change_trans := .trans
  change_of_call := .of_none
  frame_later _ _ := trivial
  code_later _ h := h
  operands_later _ h := h
  held_later _ h := h
  name_of_code _ := trivial
  code_parts h := ⟨fun head => h (.inr (.inl head)), fun rest => h (.inr (.inr rest))⟩
  operands_parts h := ⟨fun head => h (.inl head), fun rest => h (.inr rest)⟩
  held_of_code h assigns := h (.of_items assigns.items)
  held_nil _ := id
  held_atom _ _ := id
  held_builtin _ _ := id
  held_cons head rest _ assigns := assigns.elim head rest
  held_parts h := ⟨fun head => h (.inl head), fun rest => h (.inr rest)⟩
  held_closure_iff := ⟨fun h => ⟨trivial, fun _ _ => trivial, h⟩, fun h => h.2.2⟩
  lookup good _ _ := by
    refine ⟨by rw [good.1], fun v found => ?_⟩
    obtain ⟨g, frame, there, bound⟩ := Heap.outward?_eq_some found
    exact good.2 g frame there _ (Frame.mem_of_get? bound)
  define {s env x v} good _ _ free :=
    ⟨⟨congrArg (World.bind · env x v) good.1, Heap.forall_bound_define good.2 free⟩,
      .define s.left.heap env x v⟩
  -- no list that `set` heads is evaluated
  assign _ _ set free _ _ := absurd (.inl (SpecialForm.symbol_eq_operator set)) free
  newFrame {s outer} good _ := by
    refine ⟨by rw [good.1], ⟨congrArg (World.extend · (some outer)) good.1,
      Heap.forall_bound_extend good.2⟩, trivial, fun s' inside => .of_extend inside⟩
  newIds {s} good := ⟨by rw [good.1], fun count =>
    ⟨⟨congrArg (World.advance · count) good.1, good.2⟩, .refl none s.left.heap⟩⟩
  print {s} good text :=
    ⟨⟨congrArg (World.print · text) good.1, good.2⟩, .refl none s.left.heap⟩

/-- Whether the run gives a result or stops, it leaves all frames but `own` undisturbed, and
afterwards no function that is bound or given assigns. -/
def EvalM.Undisturbing {α : Type} (own : Option FrameId) (assigns : α → Prop) (act : EvalM α)
    (w : World) : Prop :=
  w.heap.Undisturbed own (act.runFrom w).2.heap ∧ (act.runFrom w).2.Unassigning ∧
    ∀ a, (act.runFrom w).1 = .ok a → ¬ assigns a

theorem EvalM.Undisturbing.of_keeps {α : Type} {own : Option FrameId} {assigns : α → Prop}
    {act : EvalM α} {w : World} {post : Twin → α → Prop}
    (kept : unassigningDiscipline.Keeps own (.same w) act post)
    (result : ∀ s a, post s a → ¬ assigns a) : act.Undisturbing own assigns w := by
  obtain ⟨r, s', left, -, later, given⟩ := kept
  have ran : act.runFrom w = (r, s'.left) := left
  rw [Undisturbing, ran]
  exact ⟨later.change, later.good.2, fun a eq => result s' a (given a eq)⟩

theorem not_codeAssigns_of_answerHeld (s : Twin) (answer : Answer)
    (held : unassigningDiscipline.AnswerHeld s answer) : ¬ answer.CodeAssigns := by
  cases answer with
  | value v => exact held
  | pending fn args =>
    rintro ⟨v, member, assigns⟩
    rcases List.mem_cons.1 member with rfl | member
    · exact held.1 assigns
    · exact held.2 v member assigns

/-- Code that does not assign cannot disturb what is there. Where no function that is bound assigns,
evaluating an expression that does not assign leaves all frames but its own as they were, and calls
of functions that do not assign, with arguments that do not, leave all frames as they were, whether
they succeed or fail; and no function that is bound afterwards assigns. -/
theorem frames_undisturbed (limits : Limits) (w : World) (free : w.Unassigning) :
    (∀ e env ctx, ¬ e.Assigns →
      EvalM.Undisturbing (some env) Answer.CodeAssigns (limits.machine.eval e env ctx) w ∧
      EvalM.Undisturbing (some env) Value.CodeAssigns (limits.machine.value e env ctx) w) ∧
    (∀ caller fn args, (∀ v ∈ fn :: args, ¬ v.CodeAssigns) →
      EvalM.Undisturbing none Answer.CodeAssigns (limits.machine.callOnce caller fn args) w ∧
      (∀ bounces, EvalM.Undisturbing none Value.CodeAssigns
        (limits.machine.runChain caller bounces fn args) w) ∧
      EvalM.Undisturbing none Value.CodeAssigns (limits.machine.call caller fn args) w) := by
  have respects := Machine.respects_machine unassigningDiscipline limits.bounces limits.depth
  have good : unassigningDiscipline.Good (.same w) := ⟨rfl, free⟩
  constructor
  · intro e env ctx code
    have frame : unassigningDiscipline.Frame (.same w) env := trivial
    constructor
    · have kept := respects.eval ctx good code frame
      exact .of_keeps kept not_codeAssigns_of_answerHeld
    · have kept := respects.value good code frame ctx
      exact .of_keeps kept fun _ _ held => held
  · intro caller fn args held
    rw [List.forall_mem_cons] at held
    refine ⟨?_, fun bounces => ?_, ?_⟩
    · have kept := respects.callOnce good caller held.1 held.2
      exact .of_keeps kept not_codeAssigns_of_answerHeld
    · have kept := respects.runChain good caller bounces held.1 held.2
      exact .of_keeps kept fun _ _ held => held
    · have kept := respects.call caller good held.1 held.2
      exact .of_keeps kept fun _ _ held => held

/-- A function that defines `x` in its own frame, called from a frame where `x` is bound, and the
expression that calls it. -/
theorem frames_undisturbed_define :
    let x : Symbol := ⟨"x"⟩
    let f : Symbol := ⟨"f"⟩
    let one := Value.number (.int 1)
    let definer := Value.closure ⟨0, [], 0, some f⟩
      (.ofList 1 [.ofList 2 [.symbol ⟨"define"⟩, .symbol x, .number (.int 2)]])
    let root : Frame := ⟨none, [(x, one), (f, definer)]⟩
    let w : World := ⟨⟨#[root, ⟨some 0, []⟩]⟩, 9, #[]⟩
    let e := Value.ofList 7 [.symbol f]
    let limits : Limits := ⟨4, 1⟩
    w.Unassigning ∧ ¬ e.Assigns ∧ (∀ v ∈ [definer], ¬ v.CodeAssigns) ∧
      ((limits.machine.eval e 1 Context.topLevel).runFrom w).2.heap.frame? 0 = some root ∧
      ((limits.machine.call 0 definer []).runFrom w).2.heap.frame? 0 = some root ∧
      ((limits.machine.call 0 definer []).runFrom w).2.heap.frame? 2 =
        some ⟨some 0, [(x, .number (.int 2))]⟩ := by
  intro x f one definer root w e limits
  have free : ∀ v ∈ [definer], ¬ v.CodeAssigns := by
    simp [definer, x, Value.CodeAssigns, Value.ItemsAssign, Value.Assigns, Value.ofList,
      Value.consAll, Value.symbol, Value.number, SpecialForm.operator, SpecialForm.keyword]
  have inE : ¬ e.Assigns := by
    simp [e, f, Value.ItemsAssign, Value.Assigns, Value.ofList, Value.consAll, Value.symbol,
      SpecialForm.operator, SpecialForm.keyword]
  have unassigning : w.Unassigning := by
    intro g frame there entry bound
    rcases g with _ | _ | g
    · cases there
      rcases List.mem_cons.1 bound with rfl | bound
      · exact id
      · obtain rfl := List.mem_singleton.1 bound
        exact free definer (List.mem_singleton_self definer)
    · cases there
      cases bound
    · cases there
  have kept := frames_undisturbed limits w unassigning
  exact ⟨unassigning, inE, free, (kept.1 e 1 Context.topLevel inE).1.1 0 root rfl (by decide),
    (kept.2 0 definer [] free).2.2.1 0 root rfl (by decide), by decide +kernel⟩

end SmallLisp
