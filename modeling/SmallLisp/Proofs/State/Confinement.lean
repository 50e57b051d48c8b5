import SmallLisp.Proofs.State.Reach

/-!
# Evaluation is confined to what it can reach

Two states that agree on all that a run can reach are the same to the run. What it can reach is a
region that refers to no frame outside, together with the frames that the run makes: lookups,
assignments and captures never leave it. Main statements: one binding and one new frame keep two
states alike (`Alike.bind`, `Alike.extend`), and so evaluation from a frame and calls of a function
neither depend on anything outside what they reach, nor change it, nor let it be reached
(`evaluation_confined`).
-/

namespace SmallLisp

namespace World

/-- Two states agree on a region: its frames are the same in both, and the next frame and the next
identity get the same number. -/
structure AgreeOn (region : FrameId → Prop) (w w' : World) : Prop where
  size : w.heap.size = w'.heap.size
  fresh : w.fresh = w'.fresh
  frames : ∀ f, region f → w.heap.frame? f = w'.heap.frame? f

/-- A region and the frames that have been made between two states. -/
def Grown (region : FrameId → Prop) (w w' : World) (f : FrameId) : Prop :=
  region f ∨ (w.heap.size ≤ f ∧ f < w'.heap.size)

end World

/-- What is computed from a state neither depends on the frames outside a region, nor changes them,
nor comes to refer to them. -/
def EvalM.Confined {α : Type} (captures : α → FrameId → Prop) (region : FrameId → Prop)
    (x : EvalM α) (w : World) : Prop :=
  ∀ u, w.AgreeOn region u → ∃ r w' u', x.runFrom w = (r, w') ∧ x.runFrom u = (r, u') ∧
    (∃ texts, w'.printed = w.printed ++ texts ∧ u'.printed = u.printed ++ texts) ∧
    w'.AgreeOn (w.Grown region w') u' ∧
    (∀ f, f < w.heap.size → ¬ region f →
      w'.heap.frame? f = w.heap.frame? f ∧ u'.heap.frame? f = u.heap.frame? f) ∧
    (∀ g f, region g → w'.heap.Reaches g f → w.Grown region w' f) ∧
    ∀ a, r = .ok a → ∀ g f, captures a g → w'.heap.Reaches g f → w.Grown region w' f

/-- What two runs that started in `start` and agree on a region have in common. -/
structure Alike (region : FrameId → Prop) (start s : Twin) : Prop where
  inside : ∀ f, region f → f < start.left.heap.size
  grown : start.left.heap.size ≤ s.left.heap.size
  agree : s.left.AgreeOn (start.left.Grown region s.left) s.right
  printed : ∃ texts, s.left.printed = start.left.printed ++ texts ∧
    s.right.printed = start.right.printed ++ texts
  untouched : ∀ f, f < start.left.heap.size → ¬ region f →
    s.left.heap.frame? f = start.left.heap.frame? f ∧
      s.right.heap.frame? f = start.right.heap.frame? f
  closed : s.left.heap.Closed (start.left.Grown region s.left)

namespace Alike

variable {region : FrameId → Prop} {start s : Twin}

theorem refl (inside : ∀ f, region f → f < start.left.heap.size)
    (closed : start.left.heap.Closed region) (agree : start.left.AgreeOn region start.right) :
    Alike region start start := by
  have grown : start.left.Grown region start.left = region := by
    funext f
    simp only [World.Grown, eq_iff_iff]
    constructor
    · rintro (old | ⟨young, there⟩)
      · exact old
      · exact absurd there (Nat.not_lt_of_le young)
    · exact .inl
  refine ⟨inside, Nat.le_refl _, ?_, ⟨#[], by simp⟩, fun _ _ _ => ⟨rfl, rfl⟩, ?_⟩
  · rwa [grown]
  · rwa [grown]

theorem lt_size (h : Alike region start s) {f : FrameId}
    (reached : start.left.Grown region s.left f) :
    f < s.left.heap.size := by
  rcases reached with old | new
  · exact Nat.lt_of_lt_of_le (h.inside f old) h.grown
  · exact new.2

/-- The frames that a run can reach are there, and the same in both states. -/
theorem exists_frame (h : Alike region start s) {f : FrameId}
    (reached : start.left.Grown region s.left f) :
    ∃ frame, s.left.heap.frame? f = some frame ∧ s.right.heap.frame? f = some frame := by
  obtain ⟨frame, there⟩ := Heap.exists_frame (h.lt_size reached)
  exact ⟨frame, there, (h.agree.frames f reached).symm.trans there⟩

/-- The way outward does not leave what a run can reach. -/
theorem onward (h : Alike region start s) {g outer : FrameId} {frame : Frame}
    (reached : start.left.Grown region s.left g) (there : s.left.heap.frame? g = some frame)
    (off : frame.outer = some outer) : start.left.Grown region s.left outer :=
  h.closed g outer reached ⟨frame, there, .inl off⟩

theorem outward?_eq (h : Alike region start s) {α : Type} (pick : FrameId → Frame → Option α)
    (steps : Nat) {f : FrameId} (reached : start.left.Grown region s.left f) :
    s.left.heap.outward? pick steps f = s.right.heap.outward? pick steps f := by
  refine (Heap.outward?_congr (fun g reached => ?_) steps reached).symm
  obtain ⟨frame, there, there'⟩ := h.exists_frame reached
  exact ⟨frame, frame, there, there', rfl, rfl, fun outer off => h.onward reached there off⟩

/-- What a symbol stands for refers to nothing that the run cannot reach. -/
theorem captured (h : Alike region start s) {env : FrameId}
    (reached : start.left.Grown region s.left env) {x : Symbol} {v : Value}
    (found : s.left.heap.lookup? env x = some v) {f : FrameId} (captures : v.Captures f) :
    start.left.Grown region s.left f := by
  obtain ⟨g, frame, onWay, there, bound⟩ :=
    Heap.exists_onWay_of_outward? (fun _ _ _ => h.onward) reached found
  exact h.closed g f onWay ⟨frame, there, .inr ⟨_, Frame.mem_of_get? bound, captures⟩⟩

/-- The frame in which a symbol is found can be reached. -/
theorem owner (h : Alike region start s) {env owner : FrameId}
    (reached : start.left.Grown region s.left env) {x : Symbol}
    (found : s.left.heap.find? env x = some owner) : start.left.Grown region s.left owner := by
  obtain ⟨g, frame, onWay, there, picked⟩ :=
    Heap.exists_onWay_of_outward? (fun _ _ _ => h.onward) reached found
  split at picked
  · cases picked
    exact onWay
  · cases picked

theorem bind (h : Alike region start s) {f : FrameId} (reached : start.left.Grown region s.left f)
    (x : Symbol) {v : Value} (captures : ∀ g, v.Captures g → start.left.Grown region s.left g) :
    Alike region start (s.map (·.bind f x v)) := by
  have size (w : World) : (w.bind f x v).heap.size = w.heap.size := Heap.size_define ..
  have grown : start.left.Grown region (s.left.bind f x v) = start.left.Grown region s.left := by
    funext g
    rw [World.Grown, size, World.Grown]
  refine ⟨h.inside, ?_, ⟨?_, h.agree.fresh, fun g inside => ?_⟩, h.printed, ?_, ?_⟩
  · exact (size s.left).symm ▸ h.grown
  · exact (size s.left).trans (h.agree.size.trans (size s.right).symm)
  · have same := h.agree.frames g (grown ▸ inside)
    show (s.left.heap.define f x v).frame? g = (s.right.heap.define f x v).frame? g
    rw [Heap.frame?_define, Heap.frame?_define, same]
  · intro g old outside
    have other : f ≠ g := by
      rintro rfl
      rcases reached with inRegion | new
      · exact outside inRegion
      · exact Nat.not_le_of_lt old new.1
    show (s.left.heap.define f x v).frame? g = _ ∧ (s.right.heap.define f x v).frame? g = _
    rw [Heap.frame?_define, Heap.frame?_define, if_neg other, if_neg other]
    exact h.untouched g old outside
  · show (s.left.heap.define f x v).Closed (start.left.Grown region (s.left.bind f x v))
    rw [grown]
    -- the only new references of a frame are those of the value
    rintro g k inside ⟨frame, there, refers⟩
    rw [Heap.frame?_define] at there
    split at there
    · obtain ⟨old, there', rfl⟩ := Option.map_eq_some_iff.1 there
      rcases refers with off | ⟨entry, bound, captured⟩
      · exact h.onward inside there' off
      · rcases Frame.mem_of_mem_put bound with rfl | bound
        · exact captures k captured
        · exact h.closed g k inside ⟨old, there', .inr ⟨entry, bound, captured⟩⟩
    · exact h.closed g k inside ⟨frame, there, refers⟩

theorem grown_extend {f : FrameId} (outer : Option FrameId)
    (reached : start.left.Grown region s.left f) :
    start.left.Grown region (s.left.extend outer) f := by
  have size : (s.left.extend outer).heap.size = s.left.heap.size + 1 := Heap.size_extend ..
  rcases reached with inRegion | ⟨young, there⟩
  · exact .inl inRegion
  · exact .inr ⟨young, size.symm ▸ Nat.lt_succ_of_lt there⟩

theorem extend (h : Alike region start s) {outer : FrameId}
    (reached : start.left.Grown region s.left outer) :
    Alike region start (s.map (·.extend (some outer))) := by
  have size (w : World) : (w.extend (some outer)).heap.size = w.heap.size + 1 :=
    Heap.size_extend ..
  have older {g : FrameId} (inside : start.left.Grown region (s.left.extend (some outer)) g)
      (other : g ≠ s.left.heap.size) : start.left.Grown region s.left g := by
    rcases inside with inRegion | ⟨young, there⟩
    · exact .inl inRegion
    · rw [size] at there
      exact .inr ⟨young, Nat.lt_of_le_of_ne (Nat.le_of_lt_succ there) other⟩
  have frame (w : World) (g : FrameId) : (w.extend (some outer)).heap.frame? g =
      if g = w.heap.size then some ⟨some outer, []⟩ else w.heap.frame? g :=
    Heap.frame?_extend ..
  have sizes := h.agree.size
  refine ⟨h.inside, ?_, ⟨?_, h.agree.fresh, fun g inside => ?_⟩, h.printed, ?_, ?_⟩
  · show start.left.heap.size ≤ (s.left.extend (some outer)).heap.size
    rw [size]
    exact Nat.le_succ_of_le h.grown
  · show (s.left.extend (some outer)).heap.size = (s.right.extend (some outer)).heap.size
    rw [size, size, sizes]
  · show (s.left.extend (some outer)).heap.frame? g = (s.right.extend (some outer)).heap.frame? g
    rw [frame, frame, ← sizes]
    split
    · rfl
    · exact h.agree.frames g (older inside ‹_›)
  · intro g old outside
    have new : g ≠ s.left.heap.size := Nat.ne_of_lt (Nat.lt_of_lt_of_le old h.grown)
    show (s.left.extend (some outer)).heap.frame? g = _ ∧
      (s.right.extend (some outer)).heap.frame? g = _
    rw [frame, frame, ← sizes, if_neg new, if_neg new]
    exact h.untouched g old outside
  · rintro g k inside ⟨found, there, refers⟩
    refine grown_extend (some outer) ?_
    have there : (s.left.extend (some outer)).heap.frame? g = some found := there
    rw [frame] at there
    split at there
    · cases there
      rcases refers with off | ⟨entry, bound, -⟩
      · cases off
        exact reached
      · cases bound
    · exact h.closed g k (older inside ‹_›) ⟨found, there, refers⟩

end Alike

/-- The discipline of runs that see nothing outside a region. -/
def confinedDiscipline (region : FrameId → Prop) (start : Twin) : Discipline where
  Good s := Alike region start s
  Frame s f := start.left.Grown region s.left f
  Name _ := True
  Code s e := ∀ f, e.Captures f → start.left.Grown region s.left f
  Operands s e := ∀ f, e.Captures f → start.left.Grown region s.left f
  Held s v := ∀ f, v.Captures f → start.left.Grown region s.left f
  Change _ s s' := s.left.heap.size ≤ s'.left.heap.size
  change_refl := Twin.size_le_refl
  change_trans := @Twin.size_le_trans
  change_of_call le := le
  frame_later le reached := reached.imp_right fun new => ⟨new.1, Nat.lt_of_lt_of_le new.2 le⟩
  code_later le h f captured :=
    (h f captured).imp_right fun new => ⟨new.1, Nat.lt_of_lt_of_le new.2 le⟩
  operands_later le h f captured :=
    (h f captured).imp_right fun new => ⟨new.1, Nat.lt_of_lt_of_le new.2 le⟩
  held_later le h f captured :=
    (h f captured).imp_right fun new => ⟨new.1, Nat.lt_of_lt_of_le new.2 le⟩
  name_of_code _ := trivial
  code_parts h := ⟨fun f captured => h f (.inl captured), fun f captured => h f (.inr captured)⟩
  operands_parts h :=
    ⟨fun f captured => h f (.inl captured), fun f captured => h f (.inr captured)⟩
  held_of_code h := h
  held_nil _ _ := False.elim
  held_atom _ _ _ := False.elim
  held_builtin _ _ _ := False.elim
  held_cons head rest _ f captured := captured.elim (head f) (rest f)
  held_parts h := ⟨fun f captured => h f (.inl captured), fun f captured => h f (.inr captured)⟩
  held_closure_iff := by
    intro s header body
    constructor
    · intro h
      exact ⟨h header.env (.inl rfl), fun _ _ => trivial, fun f captured => h f (.inr captured)⟩
    · rintro ⟨made, -, inBody⟩ f (rfl | captured)
      · exact made
      · exact inBody f captured
  lookup good reached _ :=
    ⟨good.outward?_eq _ _ reached, fun _ found _ captures => good.captured reached found captures⟩
  define {s env x v} good reached _ held :=
    ⟨good.bind reached x held, Nat.le_of_eq (Heap.size_define ..).symm⟩
  assign {s env x v _ _ _} good reached _ _ _ held := by
    refine ⟨good.outward?_eq _ _ reached, fun owner found => ?_⟩
    exact ⟨good.bind (good.owner reached found) x held, Nat.le_of_eq (Heap.size_define ..).symm⟩
  newFrame {s outer} good reached := by
    have more := s.left.size_lt_extend (some outer)
    refine ⟨good.agree.size, good.extend reached, .inr ⟨good.grown, more⟩, fun s' later => ?_⟩
    exact Nat.le_trans (Nat.le_of_lt more) later
  newIds {s} good := by
    refine ⟨good.agree.fresh, fun count => ⟨?_, Nat.le_refl _⟩⟩
    have fresh : s.left.fresh + count = s.right.fresh + count := by rw [good.agree.fresh]
    exact { good with agree := ⟨good.agree.size, fresh, good.agree.frames⟩ }
  print {s} good text := by
    refine ⟨{ good with
      agree := ⟨good.agree.size, good.agree.fresh, good.agree.frames⟩, printed := ?_ },
      Nat.le_refl _⟩
    obtain ⟨texts, left, right⟩ := good.printed
    refine ⟨texts.push text, ?_, ?_⟩
    · show s.left.printed.push text = _
      rw [left, Array.push_append]
    · show s.right.printed.push text = _
      rw [right, Array.push_append]

/-- A run that keeps the discipline, whatever state the second run starts in, is confined. -/
theorem EvalM.Confined.of_keeps {α : Type} {captures : α → FrameId → Prop}
    {region : FrameId → Prop} (own : Option FrameId) {x : EvalM α} {w : World}
    (inside : ∀ f, region f → f < w.heap.size) (closed : w.heap.Closed region)
    (kept : ∀ u, Alike region ⟨w, u⟩ ⟨w, u⟩ →
      (confinedDiscipline region ⟨w, u⟩).Keeps own ⟨w, u⟩ x fun s a =>
        ∀ f, captures a f → w.Grown region s.left f) :
    x.Confined captures region w := by
  intro u agree
  have alike : Alike region ⟨w, u⟩ ⟨w, u⟩ := .refl inside closed agree
  obtain ⟨r, ⟨w', u'⟩, left, right, later, result⟩ := kept u alike
  have ended : Alike region ⟨w, u⟩ ⟨w', u'⟩ := later.good
  refine ⟨r, w', u', left, right, ended.printed, ended.agree, ended.untouched, ?_, ?_⟩
  · intro g f inRegion reaches
    exact ended.closed.of_reaches (.inl inRegion) reaches
  · intro a given g f captured reaches
    exact ended.closed.of_reaches (result a given g captured) reaches

theorem captures_of_answerHeld {region : FrameId → Prop} {start s : Twin} {answer : Answer}
    (held : (confinedDiscipline region start).AnswerHeld s answer) (f : FrameId)
    (captured : answer.Captures f) : start.left.Grown region s.left f := by
  cases answer with
  | value v => exact held f captured
  | pending fn args =>
    obtain ⟨v, member, captured⟩ := captured
    rcases List.mem_cons.1 member with rfl | member
    · exact held.1 f captured
    · exact held.2 v member f captured

/-- Evaluating an expression in a frame is confined to what the frame and the expression reach, and
calling a function, and making all calls that are handed back in its place, to what the function and
the arguments reach, whoever calls it. This is so in all well-formed states, as all states of
sessions are, for expressions and values that capture frames that there are. Expressions that have
been read capture none, so for them it is what the frame reaches. -/
theorem evaluation_confined (limits : Limits) (w : World) (wellFormed : w.WellFormed) :
    (∀ e env ctx, env < w.heap.size → (∀ f, e.Captures f → f < w.heap.size) →
      let region f := w.heap.Reaches env f ∨ w.heap.ReachesFrom e f
      EvalM.Confined Answer.Captures region (limits.machine.eval e env ctx) w) ∧
    (∀ caller fn args, (∀ v ∈ fn :: args, ∀ f, v.Captures f → f < w.heap.size) →
      let region f := ∃ v ∈ fn :: args, w.heap.ReachesFrom v f
      EvalM.Confined Answer.Captures region (limits.machine.callOnce caller fn args) w ∧
      (∀ bounces, EvalM.Confined Value.Captures region
        (limits.machine.runChain caller bounces fn args) w) ∧
      EvalM.Confined Value.Captures region (limits.machine.call caller fn args) w) ∧
    (∀ d id f, ¬ w.heap.ReachesFrom (Value.load d id).1 f) ∧
    ∀ w', Session.Reachable w' → w'.WellFormed := by
  have respects (region : FrameId → Prop) (u : World) :=
    Machine.respects_machine (confinedDiscipline region ⟨w, u⟩) limits.bounces limits.depth
  refine ⟨?_, ?_, ?_, fun w' reachable => reachable.wellFormed⟩
  · intro e env ctx there captured region
    have inside : ∀ f, region f → f < w.heap.size := by
      rintro f (reaches | ⟨g, captures, reaches⟩)
      · exact wellFormed.reaches_lt there reaches
      · exact wellFormed.reaches_lt (captured g captures) reaches
    have closed : w.heap.Closed region :=
      (w.heap.closed_reaches env).or (w.heap.closed_reachesFrom e)
    refine .of_keeps (some env) inside closed fun u alike => ?_
    have code : (confinedDiscipline region ⟨w, u⟩).Code ⟨w, u⟩ e :=
      fun f captures => .inl (.inr ⟨f, captures, .refl⟩)
    have frame : (confinedDiscipline region ⟨w, u⟩).Frame ⟨w, u⟩ env := .inl (.inl .refl)
    exact ((respects region u).eval ctx alike code frame).imp fun _ _ => captures_of_answerHeld
  · intro caller fn args captured region
    have inside : ∀ f, region f → f < w.heap.size := by
      rintro f ⟨v, member, g, captures, reaches⟩
      exact wellFormed.reaches_lt (captured v member g captures) reaches
    have closed : w.heap.Closed region := by
      rintro g f ⟨v, member, reaches⟩ refers
      exact ⟨v, member, w.heap.closed_reachesFrom v g f reaches refers⟩
    have held (u : World) (v : Value) (member : v ∈ fn :: args) :
        (confinedDiscipline region ⟨w, u⟩).Held ⟨w, u⟩ v :=
      fun f captures => .inl ⟨v, member, f, captures, .refl⟩
    have heldFn (u : World) := held u fn List.mem_cons_self
    have heldArgs (u : World) (a : Value) (member : a ∈ args) :=
      held u a (List.mem_cons_of_mem fn member)
    refine ⟨.of_keeps none inside closed fun u alike => ?_, fun bounces => ?_, ?_⟩
    · have kept := (respects region u).callOnce alike caller (heldFn u) (heldArgs u)
      exact kept.imp fun _ _ => captures_of_answerHeld
    · refine .of_keeps none inside closed fun u alike => ?_
      exact (respects region u).runChain alike caller bounces (heldFn u) (heldArgs u)
    · refine .of_keeps none inside closed fun u alike => ?_
      exact (respects region u).call caller alike (heldFn u) (heldArgs u)
  · rintro d id f ⟨g, captured, -⟩
    exact Value.not_captures_load d id g captured

/-- A call of a function that changes the `n` of the frame in which it was made. From the root frame
that frame is reached and the third frame is not, so two states that differ there are the same to
the call. -/
theorem evaluation_confined_private_binding :
    let n : Symbol := ⟨"n"⟩
    let seven := Value.number (.int 7)
    let body := Value.ofList 1 [.ofList 4 [.symbol ⟨"set"⟩, .symbol n, seven]]
    let root : Frame := ⟨none, [(⟨"f"⟩, .closure ⟨0, [], 1, none⟩ body)]⟩
    let binding (v : Value) : Frame := ⟨some 0, [(n, v)]⟩
    let state (hidden : Value) : World := ⟨⟨#[root, binding .nil, binding hidden]⟩, 8, #[]⟩
    let e := Value.ofList 7 [.symbol ⟨"f"⟩]
    let run := (Limits.mk 4 1).machine.eval e 0 Context.topLevel
    let region f := (state .nil).heap.Reaches 0 f ∨ (state .nil).heap.ReachesFrom e f
    (state .nil).WellFormed ∧ 0 < (state .nil).heap.size ∧
      (∀ f, e.Captures f → f < (state .nil).heap.size) ∧ region 1 ∧ ¬ region 2 ∧
      (state .nil).AgreeOn region (state seven) ∧
      ∃ w' u', run.runFrom (state .nil) = (.ok (.value seven), w') ∧
        run.runFrom (state seven) = (.ok (.value seven), u') ∧
        w'.heap.frame? 1 = some (binding seven) ∧ u'.heap.frame? 1 = some (binding seven) ∧
        w'.heap.frame? 2 = some (binding .nil) ∧ u'.heap.frame? 2 = some (binding seven) := by
  intro n seven body root binding state e run region
  have noneInBody (f : FrameId) : ¬ body.Captures f := by
    simp [body, Value.ofList, Value.consAll, Value.Captures, Value.symbol, seven, Value.number]
  have noneInE (f : FrameId) : ¬ e.Captures f := by
    simp [e, Value.ofList, Value.consAll, Value.Captures, Value.symbol]
  have wellFormed : (state .nil).WellFormed := by
    constructor
    · intro g frame there
      rcases g with _ | _ | _ | g
      · cases there; rfl
      · cases there; exact Nat.succ_pos _
      · cases there; exact Nat.succ_pos _
      · cases there
    · intro g frame there entry bound
      rcases g with _ | _ | _ | g
      · cases there
        obtain rfl := List.mem_singleton.1 bound
        refine ⟨Nat.lt_add_left 1 Nat.one_lt_two, ?_⟩
        exact ⟨⟨trivial, ⟨trivial, ⟨trivial, trivial, rfl⟩, rfl⟩, rfl⟩, trivial, rfl⟩
      · cases there
        obtain rfl := List.mem_singleton.1 bound
        trivial
      · cases there
        obtain rfl := List.mem_singleton.1 bound
        trivial
      · cases there
  have closed : (state .nil).heap.Closed (· < 2) := by
    rintro g f inside ⟨frame, there, refers⟩
    rcases g with _ | _ | g
    · cases there
      rcases refers with off | ⟨entry, bound, captures⟩
      · cases off
      · obtain rfl := List.mem_singleton.1 bound
        rcases captures with rfl | inBody
        · exact Nat.one_lt_two
        · exact absurd inBody (noneInBody f)
    · cases there
      rcases refers with off | ⟨entry, bound, captures⟩
      · cases off
        exact Nat.two_pos
      · obtain rfl := List.mem_singleton.1 bound
        cases captures
    · exact absurd inside (Nat.not_lt_of_le (Nat.le_add_left 2 g))
  have inside (f : FrameId) (reached : region f) : f < 2 := by
    rcases reached with reaches | ⟨g, captures, -⟩
    · exact closed.of_reaches Nat.two_pos reaches
    · exact absurd captures (noneInE g)
  have agree : (state .nil).AgreeOn region (state seven) := by
    refine ⟨rfl, rfl, fun f reached => ?_⟩
    have young := inside f reached
    rcases f with _ | _ | f
    · rfl
    · rfl
    · exact absurd young (Nat.not_lt_of_le (Nat.le_add_left 2 f))
  have reached : region 1 :=
    .inl (.single ⟨root, rfl, .inr ⟨_, List.mem_singleton_self _, .inl rfl⟩⟩)
  have outside : ¬ region 2 := fun reached => Nat.lt_irrefl 2 (inside 2 reached)
  have confined := (evaluation_confined ⟨4, 1⟩ (state .nil) wellFormed).1 e 0 Context.topLevel
    (Nat.succ_pos _) (fun f captures => absurd captures (noneInE f))
  obtain ⟨r, w', u', left, right, -, alike, untouched, -⟩ := confined (state seven) agree
  have ended : run.runFrom (state .nil) =
      (.ok (.value seven), ((state .nil).extend (some 1)).bind 1 n seven) := rfl
  obtain ⟨rfl, rfl⟩ := Prod.mk.inj (left.symm.trans ended)
  refine ⟨wellFormed, Nat.succ_pos _, fun f captures => absurd captures (noneInE f), reached,
    outside, agree, _, u', ended, right, rfl, ?_, rfl, ?_⟩
  · exact (alike.frames 1 (.inl reached)).symm
  · exact (untouched 2 (Nat.lt_succ_self 2) outside).2

end SmallLisp
