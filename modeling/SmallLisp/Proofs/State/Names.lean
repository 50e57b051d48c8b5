import SmallLisp.Proofs.State.WellFormed

/-!
# The names that frames bind

Main statement: evaluation adds names to its own frame only, a call to none that was there before,
and no symbol is resolved in another frame from where that frame is out of reach
(`names_kept`).
-/

namespace SmallLisp

namespace Heap

/-- All frames are there still, with their outer frames and their names in order. None has got names
besides, `own` aside. -/
def Extends (own : Option FrameId) (h h' : Heap) : Prop :=
  ∀ g frame, h.frame? g = some frame → ∃ frame', h'.frame? g = some frame' ∧
    frame'.outer = frame.outer ∧ frame.names <+: frame'.names ∧
    (own ≠ some g → frame'.names = frame.names)

namespace Extends

variable {own : Option FrameId} {h h' h'' : Heap}

theorem refl (own : Option FrameId) (h : Heap) : Extends own h h := fun _ frame there =>
  ⟨frame, there, rfl, List.prefix_rfl, fun _ => rfl⟩

theorem trans (first : Extends own h h') (second : Extends own h' h'') : Extends own h h'' := by
  intro g frame there
  obtain ⟨frame', there', outer', names', same'⟩ := first g frame there
  obtain ⟨frame'', there'', outer'', names'', same''⟩ := second g frame' there'
  exact ⟨frame'', there'', outer''.trans outer', names'.trans names'',
    fun other => (same'' other).trans (same' other)⟩

theorem of_none (kept : Extends none h h') : Extends own h h' := by
  intro g frame there
  obtain ⟨frame', there', outer', names', same'⟩ := kept g frame there
  exact ⟨frame', there', outer', names', fun _ => same' nofun⟩

theorem lt_size (kept : Extends own h h') {g : FrameId} (there : g < h.size) : g < h'.size := by
  obtain ⟨frame, there⟩ := exists_frame there
  obtain ⟨frame', there', -⟩ := kept g frame there
  exact lt_size_of_frame? there'

theorem define (h : Heap) (f : FrameId) (x : Symbol) (v : Value) :
    Extends (some f) h (h.define f x v) := by
  intro g frame there
  rw [frame?_define, there]
  by_cases same : f = g
  · rw [if_pos same]
    exact ⟨frame.put x v, rfl, rfl, frame.names_isPrefix_put x v,
      fun other => absurd (congrArg some same) other⟩
  · rw [if_neg same]
    exact ⟨frame, rfl, rfl, List.prefix_rfl, fun _ => rfl⟩

/-- Giving a symbol a new value where it is bound adds no name at all. -/
theorem define_bound {f : FrameId} {bound : Frame} (there : h.frame? f = some bound) {x : Symbol}
    (binds : bound.binds x = true) (v : Value) : Extends none h (h.define f x v) := by
  intro g frame there'
  rw [frame?_define, there']
  by_cases same : f = g
  · subst same
    obtain rfl := Option.some.inj (there.symm.trans there')
    rw [if_pos rfl]
    exact ⟨bound.put x v, rfl, rfl, bound.names_isPrefix_put x v,
      fun _ => Frame.names_put_of_binds binds v⟩
  · rw [if_neg same]
    exact ⟨frame, rfl, rfl, List.prefix_rfl, fun _ => rfl⟩

/-- A frame that has just been made is none of those that were there. -/
theorem of_extend {outer : Option FrameId}
    (inside : Extends (some h.size) (h.extend outer) h') : Extends none h h' := by
  intro g frame there
  have older : g ≠ h.size := Nat.ne_of_lt (lt_size_of_frame? there)
  obtain ⟨frame', there', outer', names', same'⟩ :=
    inside g frame (by rw [frame?_extend, if_neg older, there])
  exact ⟨frame', there', outer', names', fun _ => same' fun eq => older (Option.some.inj eq).symm⟩

/-- No name becomes unbound. -/
theorem find?_isSome (kept : Extends own h h') {g : FrameId} {x : Symbol}
    (bound : (h.find? g x).isSome = true) : (h'.find? g x).isSome = true := by
  refine outward?_isSome (fun f frame there => ?_) (g + 1) bound
  obtain ⟨frame', there', outer', names', -⟩ := kept f frame there
  refine ⟨frame', there', outer', fun picked => ?_⟩
  have binds : frame.binds x = true := by simpa using picked
  have binds' : frame'.binds x = true :=
    (frame'.binds_iff x).2 (names'.subset ((frame.binds_iff x).1 binds))
  simp [binds']

/-- From a frame from which `env` is out of reach, symbols are resolved as before. -/
theorem find?_eq {env : FrameId} (kept : Extends (some env) h h') (rooted : h.Rooted)
    {g : FrameId} (there : g < h.size) (apart : ¬ h.Outward g env) (x : Symbol) :
    h'.find? g x = h.find? g x := by
  have alike (f : FrameId) (onWay : f < h.size ∧ ¬ h.Outward f env) :
      ∃ frame frame', h.frame? f = some frame ∧ h'.frame? f = some frame' ∧
        frame'.outer = frame.outer ∧
        (if frame'.binds x then some f else none) = (if frame.binds x then some f else none) ∧
        ∀ outer, frame.outer = some outer → outer < h.size ∧ ¬ h.Outward outer env := by
    obtain ⟨frame, there⟩ := exists_frame onWay.1
    obtain ⟨frame', there', outer', -, same'⟩ := kept f frame there
    have other : some env ≠ some f := by
      rintro ⟨⟩
      exact onWay.2 (.self env)
    refine ⟨frame, frame', there, there', outer', ?_, fun outer off => ⟨?_, fun reaches => ?_⟩⟩
    · rw [Frame.binds_congr (same' other)]
    · exact Nat.lt_trans (rooted.outer_lt there off) onWay.1
    · exact onWay.2 (.step there off reaches)
  exact outward?_congr alike (g + 1) ⟨there, apart⟩

end Extends

end Heap

/-- The discipline that looks at nothing but the names of frames. -/
def namesDiscipline : Discipline where
  Good s := s.left = s.right
  Frame _ _ := True
  Name _ := True
  Code _ _ := True
  Operands _ _ := True
  Held _ _ := True
  Change own s s' := s.left.heap.Extends own s'.left.heap
  change_refl own s := .refl own s.left.heap
  change_trans := .trans
  change_of_call := .of_none
  frame_later _ _ := trivial
  code_later _ _ := trivial
  operands_later _ _ := trivial
  held_later _ _ := trivial
  name_of_code _ := trivial
  code_parts _ := ⟨trivial, trivial⟩
  operands_parts _ := ⟨trivial, trivial⟩
  held_of_code _ := trivial
  held_nil _ := trivial
  held_atom _ _ := trivial
  held_builtin _ _ := trivial
  held_cons _ _ _ := trivial
  held_parts _ := ⟨trivial, trivial⟩
  held_closure_iff := ⟨fun _ => ⟨trivial, fun _ _ => trivial, trivial⟩, fun _ => trivial⟩
  lookup good _ _ := ⟨by rw [good], fun _ _ => trivial⟩
  define {s env x v} good _ _ _ := ⟨congrArg (World.bind · env x v) good, .define _ env x v⟩
  assign {s env x v _ _ _} good _ _ _ _ _ := by
    refine ⟨by rw [good], fun owner found => ⟨congrArg (World.bind · owner x v) good, ?_⟩⟩
    obtain ⟨frame, there, binds⟩ := Heap.binds_of_find? found
    exact .of_none (.define_bound there binds v)
  newFrame {s outer} good _ := by
    refine ⟨by rw [good], congrArg (World.extend · (some outer)) good, trivial, ?_⟩
    exact fun s' inside => .of_extend inside
  newIds {s} good :=
    ⟨by rw [good], fun count => ⟨congrArg (World.advance · count) good, .refl none s.left.heap⟩⟩
  print {s} good text := ⟨congrArg (World.print · text) good, .refl none s.left.heap⟩

/-- Evaluating an expression adds names to its own frame only, behind those that are there, and
making calls adds names to no frame that is there, whether a value or a call comes back or the run
stops with an error or by its bounds. So no name becomes unbound, and if the frames form a tree, as
they do in all states of sessions, every symbol is resolved as before from the frames from which the
own frame is out of reach. -/
theorem names_kept (limits : Limits) (w : World) :
    (∀ e env ctx,
      let w' := ((limits.machine.eval e env ctx).runFrom w).2
      w.heap.Extends (some env) w'.heap ∧
      (∀ g x, (w.heap.find? g x).isSome = true → (w'.heap.find? g x).isSome = true) ∧
      (w.heap.Rooted → ∀ g, g < w.heap.size → ¬ w.heap.Outward g env →
        ∀ x, w'.heap.find? g x = w.heap.find? g x)) ∧
    (∀ caller fn args,
      w.heap.Extends none ((limits.machine.callOnce caller fn args).runFrom w).2.heap ∧
      (∀ bounces,
        w.heap.Extends none ((limits.machine.runChain caller bounces fn args).runFrom w).2.heap) ∧
      w.heap.Extends none ((limits.machine.call caller fn args).runFrom w).2.heap ∧
      w.heap.Extends none ((limits.machine.runBuiltin caller .apply args).runFrom w).2.heap) ∧
    (Session.Reachable w → w.heap.Rooted) := by
  have respects := Machine.respects_machine namesDiscipline limits.bounces limits.depth
  have good : namesDiscipline.Good (.same w) := rfl
  have calls {α : Type} {x : EvalM α} {post : Twin → α → Prop}
      (kept : namesDiscipline.Keeps none (.same w) x post) :
      w.heap.Extends none (x.runFrom w).2.heap := by
    obtain ⟨s', state, later⟩ := kept.later_runFrom
    rw [state]
    exact later.change
  refine ⟨?_, ?_, fun reachable => reachable.wellFormed.rooted⟩
  · intro e env ctx
    have code : namesDiscipline.Code (.same w) e := trivial
    have frame : namesDiscipline.Frame (.same w) env := trivial
    obtain ⟨s', state, later⟩ := (respects.eval ctx good code frame).later_runFrom
    have kept : w.heap.Extends (some env) s'.left.heap := later.change
    simp only [Limits.machine, state]
    refine ⟨kept, fun g x => kept.find?_isSome, ?_⟩
    intro rooted g there apart x
    exact kept.find?_eq rooted there apart x
  · intro caller fn args
    have admitted : ∀ a ∈ args, namesDiscipline.Held (.same w) a := fun _ _ => trivial
    refine ⟨calls (respects.callOnce good caller trivial admitted), fun bounces => ?_, ?_, ?_⟩
    · exact calls (respects.runChain good caller bounces trivial admitted)
    · exact calls (respects.call caller good trivial admitted)
    · exact calls (respects.runBuiltin good caller .apply admitted)

/-- Binding `x` in a frame inside the root frame, where it is bound too. -/
theorem names_kept_shadowing :
    let x : Symbol := ⟨"x"⟩
    let limits : Limits := ⟨2, 1⟩
    let heap : Heap := ⟨#[⟨none, [(x, .number (.int 1))]⟩, ⟨some 0, []⟩]⟩
    let e := Value.ofList 0 [.symbol ⟨"define"⟩, .symbol x, .number (.int 2)]
    let after := ((limits.machine.eval e 1 Context.topLevel).runFrom ⟨heap, 3, #[]⟩).2.heap
    let started := ((Session.start limits.machine .none).runFrom World.initial).2
    heap.Rooted ∧ ¬ heap.Outward 0 1 ∧ heap.find? 1 x = some 0 ∧ after.find? 1 x = some 1 ∧
      after.find? 0 x = heap.find? 0 x ∧ (after.find? 1 x).isSome = true ∧
      Session.Reachable started ∧ started.heap.Rooted := by
  intro x limits heap e after started
  have rooted : heap.Rooted := by
    intro g frame there
    match g with
    | 0 => cases there; rfl
    | 1 => cases there; exact Nat.one_pos
    | g + 2 => cases there
  have apart : ¬ heap.Outward 0 1 := by
    rintro (_ | ⟨there, off, -⟩)
    cases there
    cases off
  have kept := (names_kept limits ⟨heap, 3, #[]⟩).1 e 1 Context.topLevel
  have reachable : Session.Reachable started := .start limits .none
  exact ⟨rooted, apart, rfl, rfl, kept.2.2 rooted 0 Nat.two_pos apart x, kept.2.1 1 x rfl,
    reachable, (names_kept limits started).2.2 reachable⟩

end SmallLisp
