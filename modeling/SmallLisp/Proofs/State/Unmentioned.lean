import SmallLisp.Proofs.State.Frames
import SmallLisp.Proofs.State.Respects

/-!
# Symbols that no code mentions

Evaluation looks up, binds and assigns only symbols that stand in code, which is the expression
itself and the parameters and bodies of functions. A symbol that stands in none may be bound in one
state and not in another: the run cannot tell them apart. Main statements: two states that are the
same but for one symbol stay so when another is bound (`SameBut.bind`), and so evaluation that comes
upon no code with the symbol neither sees its bindings nor changes them (`unmentioned_irrelevant`).
-/

namespace SmallLisp

/-- The symbol stands in the expression, or in a function in it, among the parameters or in the
body. -/
def Value.Mentions (x : Symbol) : Value → Prop
  | .atom a => a = .symbol x
  | .cons _ head rest => head.Mentions x ∨ rest.Mentions x
  | .closure header body => x ∈ header.params ∨ body.Mentions x
  | _ => False

/-- A function in the value has the symbol among its parameters or in its body. Where the symbol is
mere data, it is not code. -/
def Value.CodeMentions (x : Symbol) : Value → Prop
  | .cons _ head rest => head.CodeMentions x ∨ rest.CodeMentions x
  | .closure header body => x ∈ header.params ∨ body.Mentions x
  | _ => False

theorem Value.CodeMentions.mentions {x : Symbol} {v : Value} (h : v.CodeMentions x) :
    v.Mentions x := by
  induction v with
  | cons id head rest ihHead ihRest => exact h.imp ihHead ihRest
  | closure header body => exact h
  | _ => exact h.elim

/-- The code that may be run with the answer mentions the symbol. -/
def Answer.CodeMentions (x : Symbol) : Answer → Prop
  | .value v => v.CodeMentions x
  | .pending fn args => ∃ v ∈ fn :: args, v.CodeMentions x

namespace Frame

/-- The frame without its binding of a symbol. -/
def without (x : Symbol) (f : Frame) : Frame :=
  { f with bindings := f.bindings.filter (·.1 ≠ x) }

theorem get?_without {x y : Symbol} (other : y ≠ x) (f : Frame) :
    (f.without x).get? y = f.get? y := by
  obtain ⟨outer, bindings⟩ := f
  induction bindings with
  | nil => rfl
  | cons entry rest ih =>
    obtain ⟨z, v⟩ := entry
    simp only [without, get?] at ih ⊢
    by_cases dropped : z = x
    · have passed : y ≠ z := fun same => other (same.trans dropped)
      simpa [dropped, getBinding?, other] using ih
    · by_cases same : y = z
      · simp [dropped, getBinding?, same]
      · simpa [dropped, getBinding?, same] using ih

theorem binds_without {x y : Symbol} (other : y ≠ x) (f : Frame) :
    (f.without x).binds y = f.binds y := by
  rw [binds, get?_without other, binds]

/-- A frame that does not bind the symbol is left as it is. -/
theorem without_of_get?_eq_none {x : Symbol} {f : Frame} (h : f.get? x = none) :
    f.without x = f := by
  obtain ⟨outer, bindings⟩ := f
  have kept : ∀ entry ∈ bindings, entry.1 ≠ x := by
    induction bindings with
    | nil => exact fun _ member => nomatch member
    | cons entry rest ih =>
      obtain ⟨z, v⟩ := entry
      by_cases same : x = z
      · simp [get?, getBinding?, same] at h
      · rw [List.forall_mem_cons]
        refine ⟨fun eq => same eq.symm, ih ?_⟩
        simpa [get?, getBinding?, same] using h
  simpa [without] using kept

theorem without_put {x y : Symbol} (other : y ≠ x) (f : Frame) (v : Value) :
    (f.put y v).without x = (f.without x).put y v := by
  obtain ⟨outer, bindings⟩ := f
  simp only [without, put, Frame.mk.injEq, true_and]
  induction bindings with
  | nil => simp [putBinding, other]
  | cons entry rest ih =>
    obtain ⟨z, u⟩ := entry
    by_cases same : y = z
    · subst same
      simp [putBinding, other]
    · by_cases dropped : z = x
      · subst dropped
        simpa [putBinding, same] using ih
      · simpa [putBinding, same, dropped] using ih

end Frame

/-- If the frames of two heaps answer alike and hang off the same frames, the same is found on the
way outward. -/
theorem Heap.outward?_eq_of_frames {α : Type} {h h' : Heap} {pick : FrameId → Frame → Option α}
    (alike : ∀ g, (h.frame? g).map (fun frame => (frame.outer, pick g frame)) =
      (h'.frame? g).map fun frame => (frame.outer, pick g frame)) (steps : Nat) (f : FrameId) :
    h.outward? pick steps f = h'.outward? pick steps f := by
  induction steps generalizing f with
  | zero => rfl
  | succ steps ih =>
    have same := alike f
    unfold outward?
    cases there : h.frame? f with
    | none =>
      cases there' : h'.frame? f with
      | none => rfl
      | some frame' => simp [there, there'] at same
    | some frame =>
      cases there' : h'.frame? f with
      | none => simp [there, there'] at same
      | some frame' =>
        obtain ⟨outer, answer⟩ : frame.outer = frame'.outer ∧ pick f frame = pick f frame' := by
          simpa [there, there'] using same
        simp only [outer, answer, ih]

namespace World

variable {x y : Symbol} {w u : World}

/-- The states are the same but for the bindings of a symbol: each frame binds the other symbols to
the same values, in the same order. -/
structure SameBut (x : Symbol) (w u : World) : Prop where
  frames : ∀ f, (w.heap.frame? f).map (·.without x) = (u.heap.frame? f).map (·.without x)
  fresh : w.fresh = u.fresh
  printed : w.printed = u.printed

namespace SameBut

theorem size (h : w.SameBut x u) : w.heap.size = u.heap.size := by
  have missing (f : FrameId) : w.heap.size ≤ f ↔ u.heap.size ≤ f := by
    have same := h.frames f
    rw [← Heap.frame?_eq_none_iff, ← Heap.frame?_eq_none_iff,
      ← Option.map_eq_none_iff (f := (·.without x)), same, Option.map_eq_none_iff]
  exact Nat.le_antisymm ((missing _).2 (Nat.le_refl _)) ((missing _).1 (Nat.le_refl _))

/-- From no frame can the states be told apart by another symbol. -/
theorem outward?_eq (h : w.SameBut x u) {α : Type} {pick : FrameId → Frame → Option α}
    (blind : ∀ g frame, pick g (frame.without x) = pick g frame) (steps : Nat) (f : FrameId) :
    w.heap.outward? pick steps f = u.heap.outward? pick steps f := by
  refine Heap.outward?_eq_of_frames (fun g => ?_) steps f
  have answers (found : Option Frame) : found.map (fun frame => (frame.outer, pick g frame)) =
      (found.map (·.without x)).map fun frame => (frame.outer, pick g frame) := by
    cases found with
    | none => rfl
    | some frame =>
      rw [Option.map_some, Option.map_some, Option.map_some, blind]
      rfl
  rw [answers, h.frames, ← answers]

theorem lookup?_eq (h : w.SameBut x u) (other : y ≠ x) (f : FrameId) :
    w.heap.lookup? f y = u.heap.lookup? f y :=
  h.outward?_eq (fun _ frame => frame.get?_without other) _ f

theorem find?_eq (h : w.SameBut x u) (other : y ≠ x) (f : FrameId) :
    w.heap.find? f y = u.heap.find? f y := by
  refine h.outward?_eq (fun g frame => ?_) _ f
  rw [frame.binds_without other]

theorem bind (h : w.SameBut x u) (other : y ≠ x) (f : FrameId) (v : Value) :
    (w.bind f y v).SameBut x (u.bind f y v) := by
  refine ⟨fun g => ?_, h.fresh, h.printed⟩
  have put (found : Option Frame) : (found.map (·.put y v)).map (·.without x) =
      (found.map (·.without x)).map (·.put y v) := by
    cases found with
    | none => rfl
    | some frame => simp only [Option.map_some, Frame.without_put other]
  show ((w.heap.define f y v).frame? g).map _ = ((u.heap.define f y v).frame? g).map _
  rw [Heap.frame?_define, Heap.frame?_define]
  split
  · rw [put, put, h.frames]
  · exact h.frames g

theorem extend (h : w.SameBut x u) (outer : Option FrameId) :
    (w.extend outer).SameBut x (u.extend outer) := by
  refine ⟨fun g => ?_, h.fresh, h.printed⟩
  show ((w.heap.extend outer).frame? g).map _ = ((u.heap.extend outer).frame? g).map _
  rw [Heap.frame?_extend, Heap.frame?_extend, h.size]
  split
  · rfl
  · exact h.frames g

end SameBut

/-- No function that is bound to another symbol, or stands in a value that is, mentions the
symbol. -/
def Unmentioned (x : Symbol) (w : World) : Prop :=
  ∀ f frame, w.heap.frame? f = some frame → ∀ entry ∈ frame.bindings, entry.1 ≠ x →
    ¬ entry.2.CodeMentions x

namespace Unmentioned

theorem bind (h : w.Unmentioned x) (f : FrameId) (y : Symbol) {v : Value}
    (free : ¬ v.CodeMentions x) : (w.bind f y v).Unmentioned x :=
  Heap.forall_bound_define h fun _ => free

theorem extend (h : w.Unmentioned x) (outer : Option FrameId) :
    (w.extend outer).Unmentioned x :=
  Heap.forall_bound_extend h

end Unmentioned

/-- Every frame binds the symbol as it did, and none that is new binds it. -/
def KeepsBindings (x : Symbol) (w u : World) : Prop :=
  ∀ f, (u.heap.frame? f).bind (·.get? x) = (w.heap.frame? f).bind (·.get? x)

namespace KeepsBindings

theorem refl (x : Symbol) (w : World) : KeepsBindings x w w := fun _ => rfl

theorem trans {w' : World} (h : KeepsBindings x w w') (h' : KeepsBindings x w' u) :
    KeepsBindings x w u := fun f => (h' f).trans (h f)

theorem bind (other : y ≠ x) (w : World) (f : FrameId) (v : Value) :
    KeepsBindings x w (w.bind f y v) := by
  intro g
  show ((w.heap.define f y v).frame? g).bind (·.get? x) = _
  rw [Heap.frame?_define]
  split
  · cases w.heap.frame? g with
    | none => rfl
    | some frame => simp [other.symm]
  · rfl

theorem extend (x : Symbol) (w : World) (outer : Option FrameId) :
    KeepsBindings x w (w.extend outer) := by
  intro g
  show ((w.heap.extend outer).frame? g).bind (·.get? x) = _
  rw [Heap.frame?_extend]
  split
  · rename_i new
    rw [(w.heap.frame?_eq_none_iff g).2 (Nat.le_of_eq new.symm)]
    rfl
  · rfl

/-- What a new frame binds, it binds to other symbols. -/
theorem get?_eq_none (h : KeepsBindings x w u) {f : FrameId} (new : w.heap.size ≤ f)
    {frame : Frame} (there : u.heap.frame? f = some frame) : frame.get? x = none := by
  have kept := h f
  rwa [there, (w.heap.frame?_eq_none_iff f).2 new] at kept

end KeepsBindings

end World

/-- The discipline of runs that come upon no code with the symbol. -/
def unmentionedDiscipline (x : Symbol) : Discipline where
  Good s := s.left.SameBut x s.right ∧ s.left.Unmentioned x
  Frame _ _ := True
  Name y := y ≠ x
  Code _ e := ¬ e.Mentions x
  Operands _ e := ¬ e.Mentions x
  Held _ v := ¬ v.CodeMentions x
  Change _ s s' := s.left.KeepsBindings x s'.left ∧ s.right.KeepsBindings x s'.right
  change_refl _ s := ⟨.refl x s.left, .refl x s.right⟩
  change_trans h h' := ⟨h.1.trans h'.1, h.2.trans h'.2⟩
  change_of_call h := h
  frame_later _ _ := trivial
  code_later _ h := h
  operands_later _ h := h
  held_later _ h := h
  name_of_code h same := h (congrArg Atom.symbol same)
  code_parts h := ⟨fun head => h (.inl head), fun rest => h (.inr rest)⟩
  operands_parts h := ⟨fun head => h (.inl head), fun rest => h (.inr rest)⟩
  held_of_code h code := h code.mentions
  held_nil _ := id
  held_atom _ _ := id
  held_builtin _ _ := id
  held_cons head rest _ mentions := mentions.elim head rest
  held_parts h := ⟨fun head => h (.inl head), fun rest => h (.inr rest)⟩
  held_closure_iff := by
    intro s header body
    constructor
    · intro h
      refine ⟨trivial, fun y member same => h (.inl (same ▸ member)), fun body => h (.inr body)⟩
    · rintro ⟨-, names, free⟩ (param | inBody)
      · exact names x param rfl
      · exact free inBody
  lookup {s env y} good _ other := by
    refine ⟨good.1.lookup?_eq other env, fun v found => ?_⟩
    obtain ⟨g, frame, there, bound⟩ := Heap.outward?_eq_some found
    exact good.2 g frame there _ (Frame.mem_of_get? bound) other
  define {s env y v} good _ other free :=
    ⟨⟨good.1.bind other env v, good.2.bind env y free⟩, .bind other s.left env v,
      .bind other s.right env v⟩
  assign {s env y v _ _ _} good _ _ _ other free := by
    refine ⟨good.1.find?_eq other env, fun owner _ => ?_⟩
    exact ⟨⟨good.1.bind other owner v, good.2.bind owner y free⟩, .bind other s.left owner v,
      .bind other s.right owner v⟩
  newFrame {s outer} good _ := by
    refine ⟨good.1.size, ⟨good.1.extend _, good.2.extend _⟩, trivial, fun s' inside => ?_⟩
    exact ⟨.trans (.extend x s.left _) inside.1, .trans (.extend x s.right _) inside.2⟩
  newIds {s} good := by
    have fresh (count : Nat) : s.left.fresh + count = s.right.fresh + count := by
      rw [good.1.fresh]
    refine ⟨good.1.fresh, fun count => ⟨⟨?_, good.2⟩, .refl x s.left, .refl x s.right⟩⟩
    exact ⟨good.1.frames, fresh count, good.1.printed⟩
  print {s} good text := by
    have printed : s.left.printed.push text = s.right.printed.push text := by
      rw [good.1.printed]
    exact ⟨⟨⟨good.1.frames, good.1.fresh, printed⟩, good.2⟩, .refl x s.left, .refl x s.right⟩

/-- The run cannot tell the two states apart. It gives the same, prints the same and makes the same
frames; both states keep their bindings of the symbol, and differ in nothing else afterwards. What
is given, and what is bound then, brings no code with the symbol. -/
def EvalM.BlindTo {α : Type} (x : Symbol) (mentions : α → Prop) (act : EvalM α) (w u : World) :
    Prop :=
  ∃ r w' u', act.runFrom w = (r, w') ∧ act.runFrom u = (r, u') ∧ w'.SameBut x u' ∧
    (∀ f, w.heap.size ≤ f → w'.heap.frame? f = u'.heap.frame? f) ∧
    w.KeepsBindings x w' ∧ u.KeepsBindings x u' ∧ w'.Unmentioned x ∧
    ∀ a, r = .ok a → ¬ mentions a

theorem EvalM.BlindTo.of_keeps {α : Type} {x : Symbol} {mentions : α → Prop} {act : EvalM α}
    {w u : World} {own : Option FrameId} {post : Twin → α → Prop}
    (kept : (unmentionedDiscipline x).Keeps own ⟨w, u⟩ act post) (size : w.heap.size = u.heap.size)
    (result : ∀ s a, post s a → ¬ mentions a) : act.BlindTo x mentions w u := by
  obtain ⟨r, ⟨w', u'⟩, left, right, ⟨⟨same, free⟩, keeps, keeps'⟩, given⟩ := kept
  refine ⟨r, w', u', left, right, same, fun f new => ?_, keeps, keeps', free,
    fun a eq => result _ a (given a eq)⟩
  -- new frames do not bind the symbol, so they are the same as they stand
  have alike := same.frames f
  cases there : w'.heap.frame? f with
  | none =>
    rw [there, Option.map_none, eq_comm, Option.map_eq_none_iff] at alike
    exact alike.symm
  | some frame =>
    rw [there, Option.map_some, eq_comm, Option.map_eq_some_iff] at alike
    obtain ⟨frame', there', bound⟩ := alike
    rw [Frame.without_of_get?_eq_none (keeps.get?_eq_none new there),
      Frame.without_of_get?_eq_none (keeps'.get?_eq_none (size ▸ new) there')] at bound
    rw [there', bound]

theorem not_codeMentions_of_answerHeld {x : Symbol} (s : Twin) (answer : Answer)
    (held : (unmentionedDiscipline x).AnswerHeld s answer) : ¬ answer.CodeMentions x := by
  cases answer with
  | value v => exact held
  | pending fn args =>
    rintro ⟨v, member, mentions⟩
    rcases List.mem_cons.1 member with rfl | member
    · exact held.1 mentions
    · exact held.2 v member mentions

/-- Bindings of a symbol that no code mentions cannot influence a run. Two states that are the same
but for the bindings of the symbol, in whatever frames and to whatever values, are the same to
evaluation of an expression that does not mention it and to calls of functions that do not, if no
function that is bound to another symbol mentions it. -/
theorem unmentioned_irrelevant (limits : Limits) (x : Symbol) (w u : World)
    (same : w.SameBut x u) (unmentioned : w.Unmentioned x) :
    (∀ e env ctx, ¬ e.Mentions x →
      EvalM.BlindTo x (Answer.CodeMentions x) (limits.machine.eval e env ctx) w u) ∧
    (∀ caller fn args, (∀ v ∈ fn :: args, ¬ v.CodeMentions x) →
      EvalM.BlindTo x (Answer.CodeMentions x) (limits.machine.callOnce caller fn args) w u ∧
      (∀ bounces, EvalM.BlindTo x (Value.CodeMentions x)
        (limits.machine.runChain caller bounces fn args) w u) ∧
      EvalM.BlindTo x (Value.CodeMentions x) (limits.machine.call caller fn args) w u) := by
  have respects :=
    Machine.respects_machine (unmentionedDiscipline x) limits.bounces limits.depth
  have good : (unmentionedDiscipline x).Good ⟨w, u⟩ := ⟨same, unmentioned⟩
  constructor
  · intro e env ctx free
    have frame : (unmentionedDiscipline x).Frame ⟨w, u⟩ env := trivial
    have kept := respects.eval ctx good free frame
    exact .of_keeps kept same.size not_codeMentions_of_answerHeld
  · intro caller fn args free
    rw [List.forall_mem_cons] at free
    refine ⟨?_, fun bounces => ?_, ?_⟩
    · have kept := respects.callOnce good caller free.1 free.2
      exact .of_keeps kept same.size not_codeMentions_of_answerHeld
    · have kept := respects.runChain good caller bounces free.1 free.2
      exact .of_keeps kept same.size fun _ _ held => held
    · have kept := respects.call caller good free.1 free.2
      exact .of_keeps kept same.size fun _ _ held => held

/-- A call of a function that changes `n`. One state binds `x` to a function that returns itself,
the other does not bind it. -/
theorem unmentioned_irrelevant_unbound :
    let x : Symbol := ⟨"x"⟩
    let n : Symbol := ⟨"n"⟩
    let f : Symbol := ⟨"f"⟩
    let seven := Value.number (.int 7)
    let itself := Value.closure ⟨0, [], 0, none⟩ (.ofList 1 [.symbol x])
    let setter :=
      Value.closure ⟨2, [n], 0, none⟩ (.ofList 3 [.ofList 4 [.symbol ⟨"set"⟩, .symbol n, seven]])
    let state (bindings : List (Symbol × Value)) : World :=
      ⟨⟨#[⟨none, bindings ++ [(f, setter)]⟩]⟩, 9, #[]⟩
    let e := Value.ofList 7 [.symbol f, seven]
    let run := (Limits.mk 4 1).machine.eval e 0 Context.topLevel
    (state [(x, itself)]).SameBut x (state []) ∧ (state [(x, itself)]).Unmentioned x ∧
      ¬ e.Mentions x ∧ (∀ v ∈ [setter, seven], ¬ v.CodeMentions x) ∧
      EvalM.BlindTo x (Value.CodeMentions x) ((Limits.mk 4 1).machine.call 0 setter [seven])
        (state [(x, itself)]) (state []) ∧
      ∃ w' u', run.runFrom (state [(x, itself)]) = (.ok (.value seven), w') ∧
        run.runFrom (state []) = (.ok (.value seven), u') ∧
        u'.heap.frame? 1 = some ⟨some 0, [(n, seven)]⟩ ∧
        (w'.heap.frame? 0).bind (·.get? x) = some itself ∧
        (u'.heap.frame? 0).bind (·.get? x) = none := by
  intro x n f seven itself setter state e run
  have free : ∀ v ∈ [setter, seven], ¬ v.CodeMentions x := by
    simp [setter, seven, x, n, Value.CodeMentions, Value.Mentions, Value.ofList, Value.consAll,
      Value.symbol, Value.number]
  have inE : ¬ e.Mentions x := by
    simp [e, seven, x, f, Value.Mentions, Value.ofList, Value.consAll, Value.symbol, Value.number]
  have same : (state [(x, itself)]).SameBut x (state []) := by
    refine ⟨fun g => ?_, rfl, rfl⟩
    cases g with
    | zero => rfl
    | succ g => rfl
  have unmentioned : (state [(x, itself)]).Unmentioned x := by
    intro g frame there entry bound other
    cases g with
    | zero =>
      cases there
      rcases List.mem_cons.1 bound with rfl | bound
      · exact absurd rfl other
      · obtain rfl := List.mem_singleton.1 bound
        exact free setter List.mem_cons_self
    | succ g => cases there
  have blind := unmentioned_irrelevant ⟨4, 1⟩ x _ _ same unmentioned
  obtain ⟨r, w', u', left, right, -, made, keeps, keeps', -⟩ := blind.1 e 0 Context.topLevel inE
  have ended : run.runFrom (state [(x, itself)]) =
      (.ok (.value seven), ((state [(x, itself)]).extend (some 0)).bind 1 n seven) := by
    decide +kernel
  obtain ⟨rfl, rfl⟩ := Prod.mk.inj (left.symm.trans ended)
  exact ⟨same, unmentioned, inE, free, (blind.2 0 setter [seven] free).2.2, _, u', ended, right,
    (made 1 (Nat.le_refl 1)).symm, keeps 0, keeps' 0⟩

end SmallLisp
