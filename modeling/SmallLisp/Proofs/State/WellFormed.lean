import SmallLisp.Proofs.State.Frames
import SmallLisp.Proofs.State.Sources

/-!
# Well-formed states

The frames of a well-formed state form a tree, and the values in it capture frames of that tree and
are made of proper lists. Main statements: evaluation keeps states well formed
(`wellFormedDiscipline`), and all states of sessions are (`Reachable.wellFormed`).
-/

namespace SmallLisp

/-- All functions in the value were made in frames that there are, among so many, and all lists end
with the empty list. -/
def Value.Sound (size : Nat) : Value → Prop
  | .cons _ head rest => head.Sound size ∧ rest.Sound size ∧ rest.isList = true
  | .closure header body => header.env < size ∧ body.Sound size
  | _ => True

theorem Value.Sound.mono {size size' : Nat} (le : size ≤ size') {v : Value}
    (h : v.Sound size) : v.Sound size' := by
  induction v with
  | cons id head rest ihHead ihRest => exact ⟨ihHead h.1, ihRest h.2.1, h.2.2⟩
  | closure header body ih => exact ⟨Nat.lt_of_lt_of_le h.1 le, ih h.2⟩
  | _ => trivial

namespace World

/-- The frames form a tree, and what they bind is sound. -/
structure WellFormed (w : World) : Prop where
  rooted : w.heap.Rooted
  sound : ∀ g frame, w.heap.frame? g = some frame →
    ∀ entry ∈ frame.bindings, entry.2.Sound w.heap.size

namespace WellFormed

variable {w : World}

theorem initial : World.initial.WellFormed :=
  ⟨fun _ _ there => by simp [World.initial, Heap.frame?, Heap.empty] at there,
    fun _ _ there => by simp [World.initial, Heap.frame?, Heap.empty] at there⟩

theorem bind (h : w.WellFormed) (f : FrameId) (x : Symbol) {v : Value}
    (sound : v.Sound w.heap.size) : (w.bind f x v).WellFormed := by
  have size : (w.bind f x v).heap.size = w.heap.size := Heap.size_define ..
  refine ⟨h.rooted.define f x v, ?_⟩
  rw [size]
  exact Heap.forall_bound_define h.sound sound

theorem extend (h : w.WellFormed) {outer : Option FrameId}
    (within : outer.elim (w.heap.size = 0) (· < w.heap.size)) : (w.extend outer).WellFormed := by
  have size : (w.extend outer).heap.size = w.heap.size + 1 := Heap.size_extend ..
  refine ⟨h.rooted.extend within, ?_⟩
  rw [size]
  refine Heap.forall_bound_extend fun g frame there entry mem => ?_
  exact (h.sound g frame there entry mem).mono (Nat.le_succ _)

end WellFormed

end World

/-- The discipline of well-formed states. -/
def wellFormedDiscipline : Discipline where
  Good s := s.left = s.right ∧ s.left.WellFormed
  Frame s f := f < s.left.heap.size
  Name _ := True
  Code s e := e.Sound s.left.heap.size
  Operands s e := e.Sound s.left.heap.size
  Held s v := v.Sound s.left.heap.size
  Change _ s s' := s.left.heap.size ≤ s'.left.heap.size
  change_refl := Twin.size_le_refl
  change_trans := @Twin.size_le_trans
  change_of_call le := le
  frame_later le h := Nat.lt_of_lt_of_le h le
  code_later le h := h.mono le
  operands_later le h := h.mono le
  held_later le h := h.mono le
  name_of_code _ := trivial
  code_parts h := ⟨h.1, h.2.1⟩
  operands_parts h := ⟨h.1, h.2.1⟩
  held_of_code h := h
  held_nil _ := trivial
  held_atom _ _ := trivial
  held_builtin _ _ := trivial
  held_cons head rest list := ⟨head, rest, list⟩
  held_parts h := ⟨h.1, h.2.1⟩
  held_closure_iff := ⟨fun h => ⟨h.1, fun _ _ => trivial, h.2⟩, fun h => ⟨h.1, h.2.2⟩⟩
  lookup good _ _ := by
    refine ⟨by rw [good.1], fun v found => ?_⟩
    obtain ⟨g, frame, there, bound⟩ := Heap.outward?_eq_some found
    exact good.2.sound g frame there _ (Frame.mem_of_get? bound)
  define {s env x v} good _ _ held :=
    ⟨⟨congrArg (World.bind · env x v) good.1, good.2.bind env x held⟩,
      Nat.le_of_eq (Heap.size_define ..).symm⟩
  assign {s env x v _ _ _} good _ _ _ _ held := by
    refine ⟨by rw [good.1], fun owner _ => ?_⟩
    exact ⟨⟨congrArg (World.bind · owner x v) good.1, good.2.bind owner x held⟩,
      Nat.le_of_eq (Heap.size_define ..).symm⟩
  newFrame {s outer} good frame := by
    have more := s.left.size_lt_extend (some outer)
    refine ⟨by rw [good.1], ⟨congrArg (World.extend · (some outer)) good.1, good.2.extend frame⟩,
      more, fun s' later => ?_⟩
    exact Nat.le_trans (Nat.le_of_lt more) later
  newIds {s} good :=
    ⟨by rw [good.1], fun count => ⟨⟨congrArg (World.advance · count) good.1,
      ⟨good.2.rooted, good.2.sound⟩⟩, Nat.le_refl _⟩⟩
  print {s} good text := ⟨⟨congrArg (World.print · text) good.1, ⟨good.2.rooted, good.2.sound⟩⟩,
    Nat.le_refl _⟩

theorem Value.sound_load {d : Datum} (h : d.Proper) (size id : Nat) :
    (Value.load d id).1.Sound size := by
  induction d generalizing id with
  | cons head rest ihHead ihRest =>
    refine ⟨ihHead h.1 _, ihRest h.2.1 _, ?_⟩
    cases rest with
    | nil => rfl
    | atom a => exact absurd rfl (h.2.2 a)
    | cons => rfl
  | _ => trivial

theorem wellFormed_admitsData : wellFormedDiscipline.AdmitsData := fun s _ proper id =>
  Value.sound_load proper s.left.heap.size id

namespace Session

open Discipline (Later Keeps)

variable {s : Twin} {root : FrameId}

theorem bindAll_keeps (good : wellFormedDiscipline.Good s)
    (frame : wellFormedDiscipline.Frame s root) (ops : List Builtin) :
    wellFormedDiscipline.Keeps (some root) s
      (ops.forM fun op => EvalM.define root op.symbol (.builtin op)) fun _ _ => True := by
  induction ops generalizing s with
  | nil => exact .pure good trivial
  | cons op ops ih =>
    have held := wellFormedDiscipline.held_builtin s op
    apply (Keeps.define good frame trivial held).bind
    intro s' _ later _
    exact ih later.good (later.frame frame)

/-- The states of sessions: a session is started, and sources are run in frames that there are,
whether they end with a value, fail or exhaust the bounds. -/
inductive Reachable : World → Prop
  | start (limits : Limits) (first : Prelude) :
    Reachable ((start limits.machine first).runFrom World.initial).2
  | source {w : World} (limits : Limits) {root : FrameId} (source : String) :
    Reachable w → root < w.heap.size →
      Reachable ((runSource limits.machine root source).runFrom w).2

/-- The root frame is the only one that hangs off none, so it is made before the discipline
holds. -/
theorem wellFormed_newRoot_bind {α : Type} {next : FrameId → EvalM α} {post : Twin → α → Prop}
    (h : ∀ s, wellFormedDiscipline.Good s → wellFormedDiscipline.Frame s 0 →
      wellFormedDiscipline.Keeps (some 0) s (next 0) post) :
    ((newRoot >>= next).runFrom World.initial).2.WellFormed := by
  have good : wellFormedDiscipline.Good (.same (World.initial.extend none)) :=
    ⟨rfl, World.WellFormed.initial.extend rfl⟩
  have frame : wellFormedDiscipline.Frame (.same (World.initial.extend none)) 0 := Nat.one_pos
  have kept := (bindAll_keeps good frame Builtin.all).bind fun s' _ later _ =>
    h s' later.good (later.frame frame)
  obtain ⟨s', state, later⟩ := kept.later_runFrom
  simp only [newRoot, bind_assoc, pure_bind]
  rw [EvalM.runFrom_bind_ok (EvalM.run_newFrame World.initial none)]
  exact state ▸ later.good.2

theorem wellFormed_start {m : Machine} (respects : m.Respects wellFormedDiscipline)
    (first : Prelude) : ((start m first).runFrom World.initial).2.WellFormed := by
  refine wellFormed_newRoot_bind fun s good frame => (?_ : Keeps _ _ _ _ fun _ _ => True)
  split
  · apply (runSource_keeps respects wellFormed_admitsData good frame _).bind
    intro s' _ later _
    exact .pure later.good trivial
  · exact .pure good trivial

/-- Running a source keeps a well-formed state well formed. -/
theorem wellFormed_source {m : Machine} (respects : m.Respects wellFormedDiscipline) {w : World}
    (wellFormed : w.WellFormed) (inside : root < w.heap.size) (source : String) :
    ((runSource m root source).runFrom w).2.WellFormed := by
  have good : wellFormedDiscipline.Good (.same w) := ⟨rfl, wellFormed⟩
  obtain ⟨s', state, later⟩ :=
    (runSource_keeps respects wellFormed_admitsData good inside source).later_runFrom
  rw [state]
  exact later.good.2

/-- All states of sessions are well formed. -/
theorem Reachable.wellFormed {w : World} (h : Reachable w) : w.WellFormed := by
  have respects (limits : Limits) : limits.machine.Respects wellFormedDiscipline :=
    Machine.respects_machine wellFormedDiscipline limits.bounces limits.depth
  induction h with
  | start limits first => exact wellFormed_start (respects limits) first
  | source limits source _ inside ih => exact wellFormed_source (respects limits) ih inside source

end Session

end SmallLisp
