import SmallLisp.Proofs.Session.Related
import SmallLisp.Proofs.State.Names
import SmallLisp.Proofs.State.Reach
import SmallLisp.Proofs.State.Tree
import SmallLisp.Proofs.State.Watched

/-!
# The heap of a session

Main statement: through a whole session the frames form a tree under the root frame, which binds
the built-in operations, and all values that there are, in bindings, among arguments and in calls
that are handed back, are made of proper lists and of functions made in frames of the tree
(`sessions_wellFormed`).
-/

namespace SmallLisp

/-- The first frame is the outermost, and binds all names of operations. -/
def World.BindsBuiltins (w : World) : Prop :=
  ∃ root, w.heap.frame? 0 = some root ∧ root.outer = none ∧
    ∀ op : Builtin, root.binds op.symbol = true

/-- Names are not lost. -/
theorem World.BindsBuiltins.of_extends {w w' : World} {own : Option FrameId}
    (h : w.BindsBuiltins) (kept : w.heap.Extends own w'.heap) : w'.BindsBuiltins := by
  obtain ⟨root, there, outermost, binds⟩ := h
  obtain ⟨root', there', outer, names, -⟩ := kept 0 root there
  refine ⟨root', there', outer.trans outermost, fun op => ?_⟩
  exact (root'.binds_iff op.symbol).2 (names.subset ((root.binds_iff op.symbol).1 (binds op)))

/-- However the run ends, it leaves a well-formed state with all the frames that there were, and
what it gives, if it gives anything, is sound there. -/
def EvalM.LeavesWellFormed {α : Type} (x : EvalM α) (sound : Nat → α → Prop) (w : World) : Prop :=
  ∃ r w', x.runFrom w = (r, w') ∧ w'.WellFormed ∧ w.heap.size ≤ w'.heap.size ∧
    ∀ a, r = .ok a → sound w'.heap.size a

theorem EvalM.LeavesWellFormed.of_keeps {α : Type} {x : EvalM α} {sound : Nat → α → Prop}
    {w : World} {own : Option FrameId} {post : Twin → α → Prop}
    (kept : wellFormedDiscipline.Keeps own (.same w) x post)
    (result : ∀ s a, post s a → sound s.left.heap.size a) : x.LeavesWellFormed sound w := by
  obtain ⟨r, s', run, -, later, given⟩ := kept
  exact ⟨r, s'.left, run, later.good.2, later.change, fun a eq => result s' a (given a eq)⟩

theorem names_admitsData : namesDiscipline.AdmitsData := fun _ _ _ _ => trivial

namespace Session

variable {alarm : World} {bounces depth : Nat}

/-- Watching a source changes nothing: the alarm would leave a state behind that is not well
formed. -/
theorem runSource_watched (ill : ¬ alarm.WellFormed) {w : World} (wellFormed : w.WellFormed)
    {root : FrameId} (inside : root < w.heap.size) (source : String) :
    (runSource (watched alarm bounces depth) root source).runFrom w =
      (runSource (machine bounces depth) root source).runFrom w := by
  have related := (watched_related alarm bounces depth).runSource root source
  refine (related w).resolve_left fun raised => ill ?_
  have kept := wellFormed_source (watched_respects alarm bounces depth) wellFormed inside source
  rwa [show _ = _ from raised] at kept

theorem start_watched (ill : ¬ alarm.WellFormed) (first : Prelude) :
    (start (watched alarm bounces depth) first).runFrom World.initial =
      (start (machine bounces depth) first).runFrom World.initial := by
  have related := (watched_related alarm bounces depth).start first
  refine (related World.initial).resolve_left fun raised => ill ?_
  have kept := wellFormed_start (watched_respects alarm bounces depth) first
  rwa [show _ = _ from raised] at kept

/-- A source leaves all frames and their names. -/
theorem runSource_extends {m : Machine} (respects : m.Respects namesDiscipline) (root : FrameId)
    (source : String) (w : World) :
    w.heap.Extends (some root) ((runSource m root source).runFrom w).2.heap := by
  have good : namesDiscipline.Good (.same w) := rfl
  have frame : namesDiscipline.Frame (.same w) root := trivial
  obtain ⟨s', state, later⟩ :=
    (runSource_keeps respects names_admitsData good frame source).later_runFrom
  rw [state]
  exact later.change

theorem bindsBuiltins_source {w : World} (h : w.BindsBuiltins) (m : Machine)
    (respects : m.Respects namesDiscipline) (root : FrameId) (source : String) :
    ((runSource m root source).runFrom w).2.BindsBuiltins :=
  h.of_extends (runSource_extends respects root source w)

/-- The state with all operations bound in a frame. -/
def bindAll (root : FrameId) (ops : List Builtin) (w : World) : World :=
  ops.foldl (fun w op => w.bind root op.symbol (.builtin op)) w

theorem runFrom_bindAll (root : FrameId) (ops : List Builtin) (w : World) :
    (ops.forM fun op => EvalM.define root op.symbol (.builtin op)).runFrom w =
      (.ok (), bindAll root ops w) := by
  induction ops generalizing w with
  | nil => rfl
  | cons op ops ih => exact ih (w.bind root op.symbol (.builtin op))

theorem runFrom_newRoot_at (w : World) :
    newRoot.runFrom w = (.ok w.heap.size, bindAll w.heap.size Builtin.all (w.extend none)) := by
  rw [newRoot, EvalM.runFrom_bind_ok (EvalM.run_newFrame w none)]
  exact EvalM.runFrom_bind_ok (runFrom_bindAll _ Builtin.all _) _

/-- The state of a session before anything has run in it. -/
def emptySession : World := bindAll 0 Builtin.all (World.initial.extend none)

theorem runFrom_newRoot : newRoot.runFrom World.initial = (.ok 0, emptySession) :=
  runFrom_newRoot_at World.initial

theorem bindsBuiltins_emptySession : emptySession.BindsBuiltins := by
  have binds : ((emptySession.heap.frame? 0).any fun root =>
      root.outer.isNone && Builtin.all.all fun op => root.binds op.symbol) = true := by
    decide +kernel
  obtain ⟨root, there, outermost⟩ := (Option.any_eq_true _ _).1 binds
  rw [Bool.and_eq_true, Option.isNone_iff_eq_none, List.all_eq_true] at outermost
  exact ⟨root, there, outermost.1, fun op => outermost.2 op op.mem_all⟩

theorem bindsBuiltins_start (m : Machine) (respects : m.Respects namesDiscipline)
    (first : Prelude) : ((start m first).runFrom World.initial).2.BindsBuiltins := by
  unfold start
  rw [EvalM.runFrom_bind_ok runFrom_newRoot]
  split
  · rename_i source _
    have kept := bindsBuiltins_source bindsBuiltins_emptySession m respects 0 source
    rcases run : (runSource m 0 source).runFrom emptySession with ⟨s | v, w⟩
    · rw [EvalM.runFrom_bind_error run]
      rwa [run] at kept
    · rw [EvalM.runFrom_bind_ok run]
      rwa [run] at kept
  · exact bindsBuiltins_emptySession

theorem Reachable.bindsBuiltins {w : World} (h : Reachable w) : w.BindsBuiltins := by
  have respects (limits : Limits) : limits.machine.Respects namesDiscipline :=
    Machine.respects_machine namesDiscipline limits.bounces limits.depth
  induction h with
  | start limits first => exact bindsBuiltins_start limits.machine (respects limits) first
  | source limits source _ _ ih =>
    exact bindsBuiltins_source ih limits.machine (respects limits) _ source

end Session

/-- A frame of the tree of frames. Following outer frames, one comes to the root frame and never
back, all that the frame reaches is there, and what is looked for from it is found or is nowhere on
the way. -/
structure World.HangsInTree (w : World) (g : FrameId) : Prop where
  root : w.heap.Outward g 0
  acyclic : ∀ f, w.heap.Outward g f → w.heap.Outward f g → g = f
  there : ∀ f, w.heap.Reaches g f → ∃ frame, w.heap.frame? f = some frame
  /-- The bound on the steps of a walk never ends it. -/
  walk : ∀ {α : Type} (pick : FrameId → Frame → Option α) steps, g < steps →
    w.heap.outward? pick steps g = w.heap.outward? pick (g + 1) g
  find : ∀ x, (∃ owner frame, w.heap.find? g x = some owner ∧ w.heap.Outward g owner ∧
      w.heap.frame? owner = some frame ∧ frame.binds x = true ∧
      w.heap.lookup? g x = frame.get? x) ∨
    (w.heap.find? g x = none ∧ w.heap.lookup? g x = none ∧
      ∀ f frame, w.heap.Outward g f → w.heap.frame? f = some frame → frame.binds x = false)

theorem World.WellFormed.hangsInTree {w : World} (h : w.WellFormed) {g : FrameId}
    (inside : g < w.heap.size) : w.HangsInTree g where
  root := h.rooted.outward_root inside
  acyclic _ := Heap.Outward.antisymm h.rooted
  there _ reaches := Heap.exists_frame (h.reaches_lt inside reaches)
  walk _ _ enough := h.rooted.outward?_eq enough
  find x := by
    rcases h.rooted.find?_cases g x with
      ⟨owner, frame, found, outward, there, binds⟩ | ⟨missing, apart⟩
    · refine .inl ⟨owner, frame, found, outward, there, binds, ?_⟩
      rw [Heap.lookup?_eq, found, Option.bind_some, there, Option.bind_some]
    · refine .inr ⟨missing, ?_, apart⟩
      rw [Heap.lookup?_eq, missing, Option.bind_none]

/-- Started with what is sound, everything that the machine does leaves a well-formed state: values,
arguments and calls that are handed back are sound. -/
structure Machine.KeepsWellFormed (m : Machine) (w : World) : Prop where
  eval : ∀ e env ctx, env < w.heap.size → e.Sound w.heap.size →
    (m.eval e env ctx).LeavesWellFormed Answer.Sound w
  values : ∀ es env ctx, env < w.heap.size → (∀ e ∈ es, e.Sound w.heap.size) →
    (m.values es env ctx).LeavesWellFormed (fun size vs => ∀ v ∈ vs, v.Sound size) w
  runBuiltin : ∀ caller op args, (∀ a ∈ args, a.Sound w.heap.size) →
    (m.runBuiltin caller op args).LeavesWellFormed Value.Sound w
  callOnce : ∀ caller fn args, fn.Sound w.heap.size → (∀ a ∈ args, a.Sound w.heap.size) →
    (m.callOnce caller fn args).LeavesWellFormed Answer.Sound w
  call : ∀ caller fn args, fn.Sound w.heap.size → (∀ a ∈ args, a.Sound w.heap.size) →
    (m.call caller fn args).LeavesWellFormed Value.Sound w

theorem Machine.Respects.keepsWellFormed {m : Machine} (respects : m.Respects wellFormedDiscipline)
    {w : World} (wellFormed : w.WellFormed) : m.KeepsWellFormed w := by
  have good : wellFormedDiscipline.Good (.same w) := ⟨rfl, wellFormed⟩
  constructor
  · intro e env ctx frame code
    exact .of_keeps (respects.eval ctx good code frame) fun _ _ => Answer.sound_of_held
  · intro es env ctx frame code
    exact .of_keeps (respects.values good code frame ctx) fun _ _ held => held
  · intro caller op args hargs
    exact .of_keeps (respects.runBuiltin good caller op hargs) fun _ _ held => held
  · intro caller fn args hfn hargs
    exact .of_keeps (respects.callOnce good caller hfn hargs) fun _ _ => Answer.sound_of_held
  · intro caller fn args hfn hargs
    exact .of_keeps (respects.call caller good hfn hargs) fun _ _ held => held

/-- The heap stays well formed through every session, however its steps end. The frames form a tree
under the root frame, which binds the built-in operations, and looking for a symbol ends with a
frame that binds it, or because no frame on the way outward does. Evaluating expressions and
operands, making calls and running operations keep the heap well formed, and give values, arguments
and calls that are sound. No run of a source comes to a point where the state or a value that is
handed on is not: an evaluator that raises an alarm if it is, wherever an expression or a call
starts or ends, does the same as the evaluator that does not look. -/
theorem sessions_wellFormed :
    (∀ w, Session.Reachable w → w.WellFormed ∧ w.BindsBuiltins) ∧
    (∀ w : World, w.WellFormed → ∀ g, g < w.heap.size → w.HangsInTree g) ∧
    (∀ (limits : Limits) (w : World), w.WellFormed → limits.machine.KeepsWellFormed w) ∧
    ∀ alarm : World, ¬ alarm.WellFormed → ∀ bounces depth,
      (∀ first, (Session.start (watched alarm bounces depth) first).runFrom World.initial =
        (Session.start (machine bounces depth) first).runFrom World.initial) ∧
      ∀ (w : World) root source, w.WellFormed → root < w.heap.size →
        (Session.runSource (watched alarm bounces depth) root source).runFrom w =
          (Session.runSource (machine bounces depth) root source).runFrom w := by
  refine ⟨fun w reachable => ⟨reachable.wellFormed, reachable.bindsBuiltins⟩, ?_, ?_, ?_⟩
  · intro w wellFormed g inside
    exact wellFormed.hangsInTree inside
  · intro limits w wellFormed
    have respects : limits.machine.Respects wellFormedDiscipline :=
      Machine.respects_machine wellFormedDiscipline limits.bounces limits.depth
    exact respects.keepsWellFormed wellFormed
  · intro alarm ill bounces depth
    refine ⟨Session.start_watched ill, fun w root source wellFormed inside => ?_⟩
    exact Session.runSource_watched ill wellFormed inside source

/-- A source that defines a function and then fails. The state that it leaves is well formed, the
function has been made in the root frame, and an alarm that would leave a frame behind that hangs
off itself is not raised. -/
theorem sessions_wellFormed_after_error :
    let limits : Limits := ⟨4, 2⟩
    let f : Symbol := ⟨"f"⟩
    let source := "(define f (lambda (x) x)) (g)"
    let run := Session.runSource limits.machine 0 source
    let before := ((Session.start limits.machine .none).runFrom World.initial).2
    let after := (run.runFrom before).2
    let tangled : World := ⟨⟨#[⟨some 0, []⟩]⟩, 0, #[]⟩
    (run.runFrom before).1 = .error (.error (.undefinedSymbol "g")) ∧
      0 < before.heap.size ∧ Session.Reachable after ∧ after.WellFormed ∧ after.BindsBuiltins ∧
      (after.heap.find? 0 f).isSome = true ∧ after.HangsInTree 0 ∧
      (limits.machine.eval (.symbol f) 0 Context.topLevel).LeavesWellFormed Answer.Sound after ∧
      (limits.machine.call 0 (.builtin .list) []).LeavesWellFormed Value.Sound after ∧
      ¬ tangled.WellFormed ∧
      (Session.runSource (watched tangled 2 4) 0 source).runFrom before = run.runFrom before := by
  intro limits f source run before after tangled
  have reachableBefore : Session.Reachable before := .start limits .none
  have inside : 0 < before.heap.size := by decide +kernel
  have reachable : Session.Reachable after := .source limits source reachableBefore inside
  have kept := sessions_wellFormed.1 after reachable
  have inside' : 0 < after.heap.size := by decide +kernel
  have ill : ¬ tangled.WellFormed := fun wellFormed =>
    Nat.lt_irrefl 0 (wellFormed.rooted 0 _ rfl)
  have runs := sessions_wellFormed.2.2.1 limits after kept.1
  refine ⟨by decide +kernel, inside, reachable, kept.1, kept.2, by decide +kernel,
    sessions_wellFormed.2.1 after kept.1 0 inside', runs.eval (.symbol f) 0 _ inside' trivial,
    runs.call 0 (.builtin .list) [] trivial nofun, ill, ?_⟩
  exact (sessions_wellFormed.2.2.2 tangled ill 2 4).2 before 0 source
    (sessions_wellFormed.1 before reachableBefore).1 inside

end SmallLisp
