import Mathlib.Data.List.Pairwise
import Mathlib.Order.Bounds.Basic
import SmallLisp.Proofs.Eval.Binding
import SmallLisp.Proofs.State.Lexical
import SmallLisp.Proofs.State.Names

/-!
# Parameters and the frame of a call

The message about missing arguments counts all named parameters, and binding stops at the first rest
marker. The two agree if nothing but rest markers stands behind the marker, and only then
(`requiredCount_eq_iff`). All parameters are bound in the frame of the call in this case, and a
symbol that is bound in a frame is never found further out from anywhere inside it
(`Heap.Retains.shields`). Main statements: so no parameter leaks from a call, and the count in the
message is the least number of arguments that do (`parameters_bound_in_call`). A parameter behind
the marker is looked for in the frames around the function (`parameter_behind_marker_leaks`).
-/

namespace SmallLisp

namespace Heap

/-- All frames are there still, with their outer frames, and bind what they did. -/
def Retains (h h' : Heap) : Prop :=
  ∀ g frame, h.frame? g = some frame → ∃ frame', h'.frame? g = some frame' ∧
    frame'.outer = frame.outer ∧ frame.names ⊆ frame'.names

/-- The symbol is found in the frame. Seen from the frames inside it, it is found in none that is
further out. -/
def Shields (h : Heap) (f : FrameId) (x : Symbol) : Prop :=
  h.find? f x = some f ∧
    ∀ g owner, h.Outward g f → h.find? g x = some owner → h.Outward owner f

variable {h h' h'' : Heap} {f g : FrameId} {x : Symbol}

theorem Retains.refl (h : Heap) : h.Retains h := fun _ frame there =>
  ⟨frame, there, rfl, List.Subset.refl _⟩

theorem Retains.trans (first : h.Retains h') (second : h'.Retains h'') : h.Retains h'' := by
  intro g frame there
  obtain ⟨frame', there', outer', names'⟩ := first g frame there
  obtain ⟨frame'', there'', outer'', names''⟩ := second g frame' there'
  exact ⟨frame'', there'', outer''.trans outer', List.Subset.trans names' names''⟩

theorem Extends.retains {own : Option FrameId} (kept : Extends own h h') : h.Retains h' := by
  intro g frame there
  obtain ⟨frame', there', outer', names', -⟩ := kept g frame there
  exact ⟨frame', there', outer', names'.subset⟩

/-- The way outward from inside a frame that binds the symbol ends there at the latest. -/
theorem Binds.shields (binds : h.Binds f x) : h.Shields f x := by
  obtain ⟨frame, there, bound⟩ := binds
  refine ⟨find?_of_binds there bound, fun g owner outward found => ?_⟩
  unfold find? at found
  generalize g + 1 = steps at found
  induction outward generalizing steps with
  | self =>
    cases steps with
    | zero => cases found
    | succ steps =>
      simp only [outward?, there, bound, if_true] at found
      cases found
      exact .self _
  | @step g outer f frame' there' off onWay ih =>
    cases steps with
    | zero => cases found
    | succ steps =>
      simp only [outward?, there', off] at found
      cases bound' : frame'.binds x with
      | true =>
        simp only [bound', if_true] at found
        cases found
        exact .step there' off onWay
      | false =>
        simp only [bound', Bool.false_eq_true, if_false] at found
        exact ih there steps found

/-- Whatever is bound in a frame later, the symbol is found no further out. -/
theorem Retains.shields (kept : h.Retains h') (binds : h.Binds f x) : h'.Shields f x := by
  obtain ⟨frame, there, bound⟩ := binds
  obtain ⟨frame', there', -, names'⟩ := kept f frame there
  exact Binds.shields ⟨frame', there', (frame'.binds_iff x).2 (names' ((frame.binds_iff x).1 bound))⟩

end Heap

/-- Nothing but rest markers stands behind a rest marker. -/
def Symbol.MarkerLast (params : List Symbol) : Prop :=
  params.Pairwise fun x y => x = ellipsis → y = ellipsis

namespace Machine

variable {header : ClosureHeader} {named : List Symbol} {rest : Bool} {w : World}

/-- Binding the arguments succeeds. -/
def Accepts (header : ClosureHeader) (args : List Value) (w : World) : Prop :=
  ∃ f w', (openFrame header args).runFrom w = (.ok f, w')

/-- Evaluation unbinds nothing. -/
theorem retains_eval (limits : Limits) (e : Value) (env : FrameId) (ctx : Context) (w : World) :
    w.heap.Retains ((limits.machine.eval e env ctx).runFrom w).2.heap := by
  have respects := respects_machine namesDiscipline limits.bounces limits.depth
  have good : namesDiscipline.Good (.same w) := rfl
  have code : namesDiscipline.Code (.same w) e := trivial
  have frame : namesDiscipline.Frame (.same w) env := trivial
  obtain ⟨s', state, later⟩ := (respects.eval ctx good code frame).later_runFrom
  rw [Limits.machine, state]
  exact Heap.Extends.retains later.change

/-- Calls unbind nothing. -/
theorem retains_call (limits : Limits) (caller : FrameId) (fn : Value) (args : List Value)
    (w : World) : w.heap.Retains ((limits.machine.call caller fn args).runFrom w).2.heap := by
  have respects := respects_machine namesDiscipline limits.bounces limits.depth
  have good : namesDiscipline.Good (.same w) := rfl
  have held : namesDiscipline.Held (.same w) fn := trivial
  have admitted : ∀ a ∈ args, namesDiscipline.Held (.same w) a := fun _ _ => trivial
  obtain ⟨s', state, later⟩ := (respects.call caller good held admitted).later_runFrom
  rw [Limits.machine, state]
  exact Heap.Extends.retains later.change

theorem requiredCount_append (params others : List Symbol) :
    requiredCount (params ++ others) = requiredCount params + requiredCount others := by
  simp [requiredCount]

theorem requiredCount_of_unmarked (unmarked : Symbol.ellipsis ∉ named) :
    requiredCount named = named.length := by
  rw [requiredCount, List.filter_eq_self.2]
  intro x member
  simpa using ne_of_mem_of_not_mem member unmarked

theorem requiredCount_eq_zero_iff (params : List Symbol) :
    requiredCount params = 0 ↔ ∀ x ∈ params, x = Symbol.ellipsis := by
  simp [requiredCount]

/-- The count of the message is the number of parameters that take an argument, unless there are
parameters behind the marker. -/
theorem requiredCount_eq_iff {params : List Symbol} (splits : Symbol.Splits named rest params) :
    requiredCount params = named.length ↔ Symbol.MarkerLast params := by
  obtain ⟨unmarked, others, rfl, behind⟩ := splits.others
  have inFront : Symbol.MarkerLast (named ++ others) ↔ Symbol.MarkerLast others := by
    have apart : ∀ x ∈ named, x ≠ Symbol.ellipsis := fun x member =>
      ne_of_mem_of_not_mem member unmarked
    rw [Symbol.MarkerLast, List.pairwise_append]
    refine ⟨fun h => h.2.1, fun h => ⟨?_, h, fun x member _ _ same => absurd same (apart x member)⟩⟩
    exact List.pairwise_of_forall_mem_list fun x member _ _ same => absurd same (apart x member)
  rw [inFront, requiredCount_append, requiredCount_of_unmarked unmarked, Nat.add_eq_left]
  rcases behind with ⟨-, rfl⟩ | ⟨-, after, rfl⟩
  · exact iff_of_true rfl .nil
  · rw [requiredCount_eq_zero_iff, Symbol.MarkerLast, List.pairwise_cons, List.forall_mem_cons]
    constructor
    · rintro ⟨-, markers⟩
      refine ⟨fun x member _ => markers x member, ?_⟩
      exact List.pairwise_of_forall_mem_list fun _ _ y member _ => markers y member
    · rintro ⟨markers, -⟩
      exact ⟨rfl, fun x member => markers x member rfl⟩

theorem accepts_iff (splits : Symbol.Splits named rest header.params) (args : List Value) :
    Accepts header args w ↔ named.length ≤ args.length := by
  rcases Nat.lt_or_ge args.length named.length with short | enough
  · obtain ⟨w', run, -⟩ := openFrame_short splits short w
    refine iff_of_false ?_ (Nat.not_le_of_lt short)
    rintro ⟨f, w'', accepted⟩
    cases run.symm.trans accepted
  · obtain ⟨w', -, run, -⟩ := openFrame_enough splits enough w
    exact iff_of_true ⟨_, w', run⟩ enough

/-- The fewest arguments that can be bound are as many as there are parameters in front of the
marker. -/
theorem isLeast_accepts (splits : Symbol.Splits named rest header.params) :
    IsLeast {n | ∃ args : List Value, args.length = n ∧ Accepts header args w} named.length := by
  constructor
  · refine ⟨List.replicate named.length .nil, List.length_replicate, ?_⟩
    exact (accepts_iff splits _).2 (Nat.le_of_eq List.length_replicate.symm)
  · rintro n ⟨args, rfl, accepted⟩
    exact (accepts_iff splits args).1 accepted

/-- If nothing but rest markers stands behind the marker, all parameters are bound in the frame of
the call. -/
theorem binds_params (splits : Symbol.Splits named rest header.params)
    (last : Symbol.MarkerLast header.params) {frame : Frame} {args : List Value}
    (bound : frame.BindsArguments header.env named rest args w.fresh) {x : Symbol}
    (member : x ∈ header.params) : frame.binds x = true := by
  obtain ⟨-, others, whole, behind⟩ := splits.others
  have named_or : x ∈ named ∨ rest = true ∧ x = Symbol.ellipsis := by
    rw [whole] at member last
    rcases List.mem_append.1 member with inFront | inOthers
    · exact .inl inFront
    rcases behind with ⟨-, rfl⟩ | ⟨marked, after, rfl⟩
    · cases inOthers
    · have markers := (List.pairwise_append.1 last).2.1
      rcases List.mem_cons.1 inOthers with marker | inAfter
      · exact .inr ⟨marked, marker⟩
      · exact .inr ⟨marked, (List.pairwise_cons.1 markers).1 x inAfter rfl⟩
  rw [Frame.binds_iff, bound.names, List.mem_append]
  refine named_or.imp List.mem_eraseDups.2 ?_
  rintro ⟨rfl, rfl⟩
  simp

/-- No parameter leaks from a call, and the error about missing arguments tells the truth, for all
functions behind whose rest marker nothing but markers stands. Just for these, the number of named
parameters is the least number of arguments that can be bound. A call with fewer fails, and the
message names that number. Any other call evaluates the body in a frame that was not there before,
in which all parameters are bound. Whatever is evaluated then, in all states that follow no parameter
is found further out than that frame, seen from it or from a frame inside it. -/
theorem parameters_bound_in_call (limits : Limits) (header : ClosureHeader) (body : Value)
    (w : World) :
    let m := limits.machine
    let expected := requiredCount header.params
    (Symbol.MarkerLast header.params ↔
      IsLeast {n | ∃ args : List Value, args.length = n ∧ Accepts header args w} expected) ∧
    (Symbol.MarkerLast header.params → ∀ caller args,
      let call := (m.callOnce caller (.closure header body) args).runFrom w
      (args.length < expected → ∃ e w', call = (.error (.error e), w') ∧
        e.kind = .arityMismatch ∧
        e.message = s!"{calleeName header.name} expects {expected} argument(s), got {args.length}") ∧
      (expected ≤ args.length → ∃ f w', (openFrame header args).runFrom w = (.ok f, w') ∧
        w.heap.frame? f = none ∧
        call = (m.evalBlock f Context.functionBody body.toList).runFrom w' ∧
        (∀ x ∈ header.params, w'.heap.Binds f x) ∧
        ∀ later : World, w'.heap.Retains later.heap →
          (∀ x ∈ header.params, later.heap.Shields f x) ∧
          (∀ e env ctx, w'.heap.Retains ((m.eval e env ctx).runFrom later).2.heap) ∧
          ∀ fn args, w'.heap.Retains ((m.call f fn args).runFrom later).2.heap)) := by
  intro m expected
  obtain ⟨named, rest, splits⟩ := Symbol.exists_splits header.params
  have least : IsLeast _ named.length := isLeast_accepts (w := w) splits
  have count : expected = named.length ↔ _ := requiredCount_eq_iff splits
  refine ⟨?_, fun last caller args => ?_⟩
  · rw [← count]
    refine ⟨fun same => ?_, fun other => IsLeast.unique other least⟩
    rw [same]
    exact least
  have same : expected = named.length := count.2 last
  refine ⟨fun short => ?_, fun enough => ?_⟩
  · rw [same] at short
    obtain ⟨w', failed, -⟩ := openFrame_short splits short w
    exact ⟨_, w', EvalM.runFrom_bind_error failed _, rfl, rfl⟩
  · rw [same] at enough
    obtain ⟨w', frame, opened, -, -, there, bound⟩ := openFrame_enough splits enough w
    have new : w.heap.frame? w.heap.size = none := (w.heap.frame?_eq_none_iff _).2 (Nat.le_refl _)
    have binds (x : Symbol) (member : x ∈ header.params) : w'.heap.Binds w.heap.size x :=
      ⟨frame, there, binds_params splits last bound member⟩
    refine ⟨w.heap.size, w', opened, new, EvalM.runFrom_bind_ok opened _, binds,
      fun later kept => ⟨fun x member => kept.shields (binds x member), ?_, ?_⟩⟩
    · exact fun e env ctx => kept.trans (retains_eval limits e env ctx later)
    · exact fun fn args => kept.trans (retains_call limits _ fn args later)

/-- Two parameters and the rest marker. One argument is too few. With three, the first two are bound
in the frame of the call, and the third is the rest. -/
theorem parameters_bound_in_call_rest :
    let x : Symbol := ⟨"x"⟩
    let y : Symbol := ⟨"y"⟩
    let value (n : Int) := Value.number (.int n)
    let header : ClosureHeader := ⟨0, [x, y, .ellipsis], 0, none⟩
    let body := Value.ofList 1 [.symbol y]
    let w : World := ⟨⟨#[⟨none, [(y, value 9)]⟩]⟩, 2, #[]⟩
    let run (args : List Value) :=
      ((Limits.mk 2 1).machine.callOnce 0 (.closure header body) args).runFrom w
    Symbol.MarkerLast header.params ∧
      IsLeast {n | ∃ args : List Value, args.length = n ∧ Accepts header args w} 2 ∧
      (∃ e w', run [value 1] = (.error (.error e), w') ∧
        e.message = "lambda expects 2 argument(s), got 1") ∧
      ∃ w', (openFrame header [value 1, value 2, value 3]).runFrom w = (.ok 1, w') ∧
        (∀ x ∈ header.params, w'.heap.Shields 1 x) ∧
        (run [value 1, value 2, value 3]).1 = .ok (.value (value 2)) := by
  intro x y value header body w run
  have last : Symbol.MarkerLast header.params := by
    unfold Symbol.MarkerLast
    decide
  obtain ⟨least, calls⟩ := parameters_bound_in_call ⟨2, 1⟩ header body w
  obtain ⟨short, -⟩ := calls last 0 [value 1]
  obtain ⟨-, enough⟩ := calls last 0 [value 1, value 2, value 3]
  obtain ⟨e, w', failed, -, message⟩ := short (by decide)
  obtain ⟨f, w'', opened, -, -, -, later⟩ := enough (by decide)
  obtain rfl : 1 = f := by
    cases opened
    rfl
  exact ⟨last, least.1 last, ⟨e, w', failed, message.trans (by decide)⟩, w'', opened,
    (later w'' (.refl _)).1, rfl⟩

/-- The parameter `y` stands behind the rest marker. The form that makes the function accepts this.
Binding one argument succeeds, and then `y` in the body is found outside the call. Without arguments
the call fails and the message says that two are needed. -/
theorem parameter_behind_marker_leaks :
    let x : Symbol := ⟨"x"⟩
    let y : Symbol := ⟨"y"⟩
    let value (n : Int) := Value.number (.int n)
    let form := Value.ofList 0
      [.symbol ⟨"lambda"⟩, Value.ofList 4 [.symbol x, .symbol .ellipsis, .symbol y], .symbol y]
    let m := (Limits.mk 3 2).machine
    let w : World := ⟨⟨#[⟨none, [(y, value 5)]⟩]⟩, 7, #[]⟩
    ∃ header body w₁, (m.eval form 0 Context.topLevel).runFrom w =
        (.ok (.value (.closure header body)), w₁) ∧
      y ∈ header.params ∧ requiredCount header.params = 2 ∧ Accepts header [value 1] w₁ ∧
      (∃ w₂, (m.call 0 (.closure header body) [value 1]).runFrom w₁ = (.ok (value 5), w₂)) ∧
      ∃ e w₂, (m.call 0 (.closure header body) []).runFrom w₁ = (.error (.error e), w₂) ∧
        e.message = "lambda expects 2 argument(s), got 0" := by
  intro x y value form m w
  refine ⟨⟨7, [x, .ellipsis, y], 0, none⟩, Value.ofList 0 [.symbol y], ⟨w.heap, 8, #[]⟩, rfl,
    by decide, by decide, ⟨1, _, rfl⟩, ⟨_, rfl⟩, _, _, rfl, by decide⟩

end Machine

end SmallLisp
